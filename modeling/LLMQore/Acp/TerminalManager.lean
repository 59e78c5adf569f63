import Mathlib.Data.List.AList
import Mathlib.Data.List.Induction
import LLMQore.Acp.AcpTypes

/-!
# LLMQore.Acp.TerminalManager

The terminals an agent runs commands in (`TerminalManager`), and whether those that wait for
a command to end are told.

A process goes from starting to running to its end, which its signal `finished` reports; one
that fails to start ends without that signal. The manager is connected to `finished` alone.

`TerminalManager.history` records what an observer sees, newest first. No code reads it.
-/

namespace LLMQore.Acp

open AcpTypes

/-- `QProcess::ProcessState`. -/
inductive ProcessState where
  | notRunning | starting | running
  deriving DecidableEq

/-- The identity of a promise that `waitForExit` made. -/
abbrev WaiterRef := Nat

/-- What an observer sees. -/
inductive TerminalObservation where
  /-- `waitForExit` returned the future of a promise. -/
  | waits (waiter : WaiterRef) (terminalId : String)
  /-- A promise is finished with a result. -/
  | resolved (waiter : WaiterRef) (result : WaitForTerminalExitResult)
  /-- The process of a terminal was told to die. -/
  | killed (terminalId : String)
  /-- The process of a terminal has finished. -/
  | finished (terminalId : String)
  /-- The process of a terminal has failed to start. -/
  | failedToStart (terminalId : String)
  /-- A terminal was released. -/
  | released (terminalId : String)

structure Terminal where
  process : ProcessState
  output : Bytes := []
  byteLimit : Int := 0
  truncated : Bool := false
  finished : Bool := false
  exitCode : Option Int32 := none
  signal : String := ""
  waiters : List WaiterRef := []

namespace Terminal

variable (t : Terminal)

/-- `exitResult`. -/
def exitResult : WaitForTerminalExitResult := ⟨t.exitCode, t.signal⟩

/-- `appendOutput`. -/
def appendOutput (data : Bytes) : Terminal :=
  if data.isEmpty then t
  else if 0 < t.byteLimit ∧ t.byteLimit < (t.output ++ data).length then
    { t with
      output := (t.output ++ data).drop ((t.output ++ data).length - t.byteLimit.toNat)
      truncated := true }
  else { t with output := t.output ++ data }

/-- What `onFinished` makes of the terminal before it tells the waiters. -/
def finish (rest : Bytes) (exitCode : Int32) (normalExit : Bool) : Terminal :=
  let t := t.appendOutput rest
  if normalExit then { t with process := .notRunning, finished := true, exitCode := some exitCode }
  else { t with process := .notRunning, finished := true, signal := "killed" }

end Terminal

structure TerminalManager where
  /-- `m_terminals` -/
  terminals : AList (fun _ : String => Terminal) := ∅
  nextId : Nat := 1
  nextWaiter : WaiterRef := 0
  history : List TerminalObservation := []

/-- What happens to the manager: calls, and signals of the processes of its terminals. -/
inductive TerminalEvent where
  /-- `createTerminal`; the process may fail before `start` returns. -/
  | createTerminal (params : CreateTerminalParams) (startFails : Bool)
  | waitForExit (terminalId : String)
  | killTerminal (terminalId : String)
  | releaseTerminal (terminalId : String)
  | processStarted (terminalId : String)
  | readyReadStandardOutput (terminalId : String) (data : Bytes)
  /-- `finished`, with the output that was not read yet. -/
  | processFinished (terminalId : String) (rest : Bytes) (exitCode : Int32) (normalExit : Bool)
  /-- `errorOccurred` with `FailedToStart`. -/
  | processFailedToStart (terminalId : String)

/-- What `waitForExit` returns. -/
inductive WaitForExitReply where
  | failed (message : String)
  | ready (result : WaitForTerminalExitResult)
  | pending (waiter : WaiterRef)

/-- `term-%1` -/
def terminalId (n : Nat) : String := "term-" ++ Nat.repr n

namespace TerminalManager

variable (m : TerminalManager)

def observe (o : TerminalObservation) : TerminalManager := { m with history := o :: m.history }

/-- Change a terminal, or file it. -/
def put (id : String) (t : Terminal) : TerminalManager :=
  { m with terminals := m.terminals.insert id t }

/-- The loop over the waiters of a terminal. -/
def resolve (result : WaitForTerminalExitResult) (waiters : List WaiterRef) : TerminalManager :=
  waiters.foldl (fun m waiter => m.observe (.resolved waiter result)) m

/-- `onFinished`. -/
def onFinished (id : String) (t : Terminal) (rest : Bytes) (exitCode : Int32)
    (normalExit : Bool) : TerminalManager :=
  let finished := t.finish rest exitCode normalExit
  ((m.observe (.finished id)).resolve finished.exitResult t.waiters).put id
    { finished with waiters := [] }

/-- `createTerminal`. -/
def createTerminal (params : CreateTerminalParams) (startFails : Bool) :
    TerminalManager × CreateTerminalResult :=
  let id := terminalId m.nextId
  let t : Terminal :=
    { process := if startFails then .notRunning else .starting
      byteLimit := (params.outputByteLimit.map Int32.toInt).getD 0 }
  let m := if startFails then m.observe (.failedToStart id) else m
  ({ m with nextId := m.nextId + 1 }.put id t, ⟨id⟩)

/-- `terminalOutput`; for a terminal that is not there the message of an error. -/
def terminalOutput (id : String) : Except String TerminalOutputResult :=
  match m.terminals.lookup id with
  | none => .error ("Unknown terminalId: " ++ id)
  | some t => .ok
      { output := Bytes.toUtf8String t.output
        truncated := t.truncated
        exitStatus := if t.finished then some ⟨t.exitCode, t.signal⟩ else none }

/-- `waitForExit`. -/
def waitForExit (id : String) : TerminalManager × WaitForExitReply :=
  match m.terminals.lookup id with
  | none => (m, .failed ("Unknown terminalId: " ++ id))
  | some t =>
      if t.finished then (m, .ready t.exitResult)
      else
        ({ m with nextWaiter := m.nextWaiter + 1 }.observe (.waits m.nextWaiter id)
          |>.put id { t with waiters := t.waiters ++ [m.nextWaiter] }, .pending m.nextWaiter)

/-- `killTerminal`. -/
def killTerminal (id : String) : TerminalManager :=
  match m.terminals.lookup id with
  | none => m
  | some t => if t.process = .notRunning then m else m.observe (.killed id)

/-- `releaseTerminal`; the process is disconnected and deleted, which ends it. -/
def releaseTerminal (id : String) : TerminalManager :=
  match m.terminals.lookup id with
  | none => m
  | some t =>
      ({ m with terminals := m.terminals.erase id }.observe (.released id)).resolve
        t.exitResult t.waiters

/-- A signal of the process of a terminal that is not released, when the process is in the
state the signal comes from. -/
def signal (id : String) (state : ProcessState) (p : Terminal → TerminalManager) :
    TerminalManager :=
  match m.terminals.lookup id with
  | none => m
  | some t => if t.process = state then p t else m

def step : TerminalEvent → TerminalManager
  | .createTerminal params startFails => (m.createTerminal params startFails).1
  | .waitForExit id => (m.waitForExit id).1
  | .killTerminal id => m.killTerminal id
  | .releaseTerminal id => m.releaseTerminal id
  | .processStarted id => m.signal id .starting fun t => m.put id { t with process := .running }
  | .readyReadStandardOutput id data => m.signal id .running fun t => m.put id (t.appendOutput data)
  | .processFinished id rest exitCode normalExit =>
      m.signal id .running fun t => m.onFinished id t rest exitCode normalExit
  | .processFailedToStart id =>
      -- the manager is not connected to `errorOccurred`
      m.signal id .starting fun t =>
        (m.observe (.failedToStart id)).put id { t with process := .notRunning }

/-- A run of a new manager. -/
def run (events : List TerminalEvent) : TerminalManager := events.foldl step {}

end TerminalManager

/-! ### What is asked of the manager -/

/-- The process of the terminal has ended, in whatever way, or the terminal is released. -/
def Ended (h : List TerminalObservation) (id : String) : Prop :=
  .finished id ∈ h ∨ .failedToStart id ∈ h ∨ .released id ∈ h

/-- The promise an observation finishes. -/
def TerminalObservation.resolvedWaiter : TerminalObservation → Option WaiterRef
  | .resolved waiter _ => some waiter
  | _ => none

/-- How often a promise was finished. -/
def resolutions (waiter : WaiterRef) (h : List TerminalObservation) : Nat :=
  (h.filterMap TerminalObservation.resolvedWaiter).count waiter

/-- Those that wait for a terminal are told once, when it has ended, and not before. -/
def Told (h : List TerminalObservation) (id : String) : Prop :=
  ∀ waiter, .waits waiter id ∈ h →
    (Ended h id → resolutions waiter h = 1) ∧ (¬Ended h id → resolutions waiter h = 0)

/-- A terminal that is waited for has a process that is starting or running, and all that wait
are told once, when their terminal has ended. -/
structure WaitsResolve (m : TerminalManager) : Prop where
  active : ∀ id t, m.terminals.lookup id = some t → t.waiters ≠ [] → t.process ≠ .notRunning
  told : ∀ id, Told m.history id

/-- The event lets nobody wait for a process that has failed to start. -/
def Harmless (m : TerminalManager) : TerminalEvent → Prop
  | .processFailedToStart id => ∀ t, m.terminals.lookup id = some t → t.process = .starting →
      t.waiters = []
  | .waitForExit id => ∀ t, m.terminals.lookup id = some t → t.process = .notRunning →
      t.finished = true
  | _ => True

/-! ### The books of the manager -/

/-- The terminal an observation is about. -/
def TerminalObservation.terminal : TerminalObservation → Option String
  | .waits _ id | .killed id | .finished id | .failedToStart id | .released id => some id
  | .resolved .. => none

section History

variable {h news : List TerminalObservation} {o : TerminalObservation} {id : String}
  {w : WaiterRef}

theorem resolutions_append :
    resolutions w (news ++ h) = resolutions w news + resolutions w h := by
  simp [resolutions]

theorem resolutions_cons (ho : o.resolvedWaiter = none) :
    resolutions w (o :: h) = resolutions w h := by
  simp [resolutions, ho]

/-- Nothing is said of the terminal. -/
def Unsaid (news : List TerminalObservation) (id : String) : Prop :=
  ∀ o ∈ news, o.terminal ≠ some id

theorem Unsaid.mem (hnews : Unsaid news id) (ho : o.terminal = some id) :
    o ∈ news ++ h ↔ o ∈ h := by
  refine ⟨fun hm => ?_, List.mem_append_right _⟩
  exact (List.mem_append.mp hm).resolve_left fun hm => hnews o hm ho

theorem Unsaid.ended (hnews : Unsaid news id) : Ended (news ++ h) id ↔ Ended h id := by
  unfold Ended
  rw [hnews.mem rfl, hnews.mem rfl, hnews.mem rfl]

theorem Told.append (ht : Told h id) (hnews : Unsaid news id)
    (hres : ∀ w, .waits w id ∈ h → resolutions w news = 0) : Told (news ++ h) id := by
  intro w hw
  have hold := (hnews.mem rfl).mp hw
  rw [hnews.ended, resolutions_append, hres w hold, Nat.zero_add]
  exact ht w hold

end History

/-- What the manager keeps of a terminal is right. -/
structure Entry (h : List TerminalObservation) (id : String) (t : Terminal) : Prop where
  unreleased : .released id ∉ h
  finished : t.finished = true ↔ .finished id ∈ h
  stopped : t.process = .notRunning ↔ .finished id ∈ h ∨ .failedToStart id ∈ h
  nodup : t.waiters.Nodup
  waiters : ∀ w, w ∈ t.waiters ↔ .waits w id ∈ h ∧ resolutions w h = 0

theorem Entry.append {h news : List TerminalObservation} {id : String} {t : Terminal}
    (he : Entry h id t) (hnews : Unsaid news id)
    (hres : ∀ w, .waits w id ∈ h → resolutions w news = 0) : Entry (news ++ h) id t where
  unreleased := by rw [hnews.mem rfl]; exact he.unreleased
  finished := by rw [hnews.mem rfl]; exact he.finished
  stopped := by rw [hnews.mem rfl, hnews.mem rfl]; exact he.stopped
  nodup := he.nodup
  waiters w := by
    rw [hnews.mem rfl, he.waiters w, resolutions_append]
    refine and_congr_right fun hw => ?_
    rw [hres w hw, Nat.zero_add]

structure Books (m : TerminalManager) : Prop where
  entry : ∀ {id t}, m.terminals.lookup id = some t → Entry m.history id t
  named : ∀ {id t}, m.terminals.lookup id = some t → ∃ n < m.nextId, id = terminalId n
  about : ∀ {o id}, o ∈ m.history → o.terminal = some id → ∃ n < m.nextId, id = terminalId n
  waits : ∀ {w id}, .waits w id ∈ m.history → w < m.nextWaiter
  resolved : ∀ {w}, resolutions w m.history ≠ 0 → w < m.nextWaiter
  unique : ∀ {w id id'}, .waits w id ∈ m.history → .waits w id' ∈ m.history → id = id'
  gone : ∀ {w id}, .waits w id ∈ m.history → m.terminals.lookup id = none →
    .released id ∈ m.history

/-- What a step does that concerns one terminal. -/
structure Concerns (m m' : TerminalManager) (id : String) (news : List TerminalObservation) :
    Prop where
  history : m'.history = news ++ m.history
  about : ∀ o ∈ news, ∀ id', o.terminal = some id' → id' = id
  resolved : ∀ w, resolutions w news ≠ 0 → .waits w id ∈ m.history
  waits : ∀ w id', .waits w id' ∈ news → m.nextWaiter ≤ w ∧ w < m'.nextWaiter
  lookup : ∀ id', id' ≠ id → m'.terminals.lookup id' = m.terminals.lookup id'
  named : ∃ n < m'.nextId, id = terminalId n
  nextId : m.nextId ≤ m'.nextId
  nextWaiter : m.nextWaiter ≤ m'.nextWaiter

section Step

variable {m m' : TerminalManager} {id : String} {news : List TerminalObservation}

theorem Concerns.unsaid (hc : Concerns m m' id news) {id' : String} (hne : id' ≠ id) :
    Unsaid news id' :=
  fun o ho heq => hne (hc.about o ho id' heq)

theorem Concerns.unresolved (hc : Concerns m m' id news) (hb : Books m) {id' : String}
    (hne : id' ≠ id) {w : WaiterRef} (hw : .waits w id' ∈ m.history) : resolutions w news = 0 := by
  by_contra hres
  exact hne (hb.unique hw (hc.resolved w hres))

/-- The books are right after a step if they are for the terminal it concerns. -/
theorem Books.step (hb : Books m) (hc : Concerns m m' id news)
    (hself : ∀ t, m'.terminals.lookup id = some t → Entry m'.history id t)
    (hgone : m'.terminals.lookup id = none → .released id ∈ m'.history) : Books m' where
  entry {id' t} hl := by
    by_cases hid : id' = id
    · exact hid ▸ hself t (hid ▸ hl)
    · rw [hc.lookup id' hid] at hl
      rw [hc.history]
      exact (hb.entry hl).append (hc.unsaid hid) fun w hw => hc.unresolved hb hid hw
  named {id' t} hl := by
    by_cases hid : id' = id
    · exact hid ▸ hc.named
    · rw [hc.lookup id' hid] at hl
      exact (hb.named hl).imp fun n hn => ⟨Nat.lt_of_lt_of_le hn.1 hc.nextId, hn.2⟩
  about {o id'} ho heq := by
    rw [hc.history] at ho
    rcases List.mem_append.mp ho with ho | ho
    · exact hc.about o ho id' heq ▸ hc.named
    · exact (hb.about ho heq).imp fun n hn => ⟨Nat.lt_of_lt_of_le hn.1 hc.nextId, hn.2⟩
  waits {w id'} hw := by
    rw [hc.history] at hw
    rcases List.mem_append.mp hw with hw | hw
    · exact (hc.waits w id' hw).2
    · exact Nat.lt_of_lt_of_le (hb.waits hw) hc.nextWaiter
  resolved {w} hres := by
    rw [hc.history, resolutions_append] at hres
    refine Nat.lt_of_lt_of_le ?_ hc.nextWaiter
    by_cases hnew : resolutions w news = 0
    · exact hb.resolved (by omega)
    · exact hb.waits (hc.resolved w hnew)
  unique {w a b} ha hb' := by
    rw [hc.history] at ha hb'
    rcases List.mem_append.mp ha with ha | ha <;> rcases List.mem_append.mp hb' with hb' | hb'
    · rw [hc.about _ ha a rfl, hc.about _ hb' b rfl]
    · exact absurd (hb.waits hb') (not_lt.mpr (hc.waits w a ha).1)
    · exact absurd (hb.waits ha) (not_lt.mpr (hc.waits w b hb').1)
    · exact hb.unique ha hb'
  gone {w id'} hw hl := by
    by_cases hid : id' = id
    · exact hid ▸ hgone (hid ▸ hl)
    · rw [hc.lookup id' hid] at hl
      rw [hc.history] at hw ⊢
      exact List.mem_append_right _ (hb.gone (((hc.unsaid hid).mem rfl).mp hw) hl)

/-- And the waits resolve if those for that terminal do. -/
theorem WaitsResolve.step (hw : WaitsResolve m) (hb : Books m) (hc : Concerns m m' id news)
    (hself : ∀ t, m'.terminals.lookup id = some t → t.waiters ≠ [] → t.process ≠ .notRunning)
    (htold : Told m'.history id) : WaitsResolve m' where
  active id' t hl := by
    by_cases hid : id' = id
    · exact hself t (hid ▸ hl)
    · rw [hc.lookup id' hid] at hl
      exact hw.active id' t hl
  told id' := by
    by_cases hid : id' = id
    · exact hid ▸ htold
    · rw [hc.history]
      exact (hw.told id').append (hc.unsaid hid) fun w hw' => hc.unresolved hb hid hw'

/-- The terminal `id` is filed anew, with nothing but `news` said. -/
theorem concerns_put (news : List TerminalObservation) (t' : Terminal) {t : Terminal}
    (hb : Books m) (hl : m.terminals.lookup id = some t)
    (habout : ∀ o ∈ news, ∀ id', o.terminal = some id' → id' = id)
    (hresolved : ∀ w, resolutions w news ≠ 0 → .waits w id ∈ m.history)
    (hwaits : ∀ w id', .waits w id' ∉ news) :
    Concerns m ({ m with history := news ++ m.history }.put id t') id news where
  history := rfl
  about := habout
  resolved := hresolved
  waits w id' hw := absurd hw (hwaits w id')
  lookup _ hne := AList.lookup_insert_ne hne
  named := hb.named hl
  nextId := le_rfl
  nextWaiter := le_rfl

theorem lookup_put (t : Terminal) : (m.put id t).terminals.lookup id = some t :=
  AList.lookup_insert ..

/-- The terminal changes, and what it is asked of it stays. -/
theorem books_put {t t' : Terminal} (hb : Books m) (hw : WaitsResolve m)
    (hl : m.terminals.lookup id = some t) (hfinished : t'.finished = t.finished)
    (hwaiters : t'.waiters = t.waiters)
    (hprocess : t'.process = .notRunning ↔ t.process = .notRunning) :
    Books (m.put id t') ∧ WaitsResolve (m.put id t') := by
  have hc : Concerns m (m.put id t') id [] :=
    concerns_put [] t' hb hl (by simp) (fun w hres => absurd rfl hres) (by simp)
  have he := hb.entry hl
  refine ⟨hb.step hc (fun t₁ hl₁ => ?_) fun hnone => ?_,
    hw.step hb hc (fun t₁ hl₁ => ?_) (hw.told id)⟩
  · obtain rfl := Option.some.inj ((lookup_put t').symm.trans hl₁)
    exact ⟨he.unreleased, hfinished ▸ he.finished, hprocess.trans he.stopped,
      hwaiters ▸ he.nodup, fun w => hwaiters ▸ he.waiters w⟩
  · rw [lookup_put] at hnone
    cases hnone
  · obtain rfl := Option.some.inj ((lookup_put t').symm.trans hl₁)
    intro hne hstopped
    exact hw.active id t hl (hwaiters ▸ hne) (hprocess.mp hstopped)

end Step

/-! ### Telling those that wait -/

section Resolve

variable {m : TerminalManager} {h : List TerminalObservation} {id : String} {t : Terminal}

/-- The observations of a loop over waiters, newest first. -/
def tellings (result : WaitForTerminalExitResult) (waiters : List WaiterRef) :
    List TerminalObservation :=
  waiters.reverse.map fun waiter => .resolved waiter result

theorem resolve_eq (result : WaitForTerminalExitResult) (waiters : List WaiterRef)
    (m : TerminalManager) :
    m.resolve result waiters = { m with history := tellings result waiters ++ m.history } := by
  induction waiters generalizing m with
  | nil => rfl
  | cons waiter waiters ih =>
      show (m.observe (.resolved waiter result)).resolve result waiters = _
      rw [ih]
      simp [tellings, TerminalManager.observe]

theorem resolutions_tellings (result : WaitForTerminalExitResult) (waiters : List WaiterRef)
    (w : WaiterRef) : resolutions w (tellings result waiters) = waiters.count w := by
  unfold resolutions tellings
  rw [List.filterMap_map, show TerminalObservation.resolvedWaiter ∘
    (fun waiter => TerminalObservation.resolved waiter result) = some from rfl,
    List.filterMap_some, List.count_reverse]

theorem terminal_tellings {result : WaitForTerminalExitResult} {waiters : List WaiterRef}
    {o : TerminalObservation} (ho : o ∈ tellings result waiters) : o.terminal = none := by
  obtain ⟨w, -, rfl⟩ := List.mem_map.mp ho
  rfl

/-- The ways a terminal comes to its end that the manager knows of. -/
def Ending (id : String) (o : TerminalObservation) : Prop := o = .finished id ∨ o = .released id

theorem Ending.terminal {o : TerminalObservation} (ho : Ending id o) : o.terminal = some id := by
  rcases ho with rfl | rfl <;> rfl

theorem Ending.resolutions {o : TerminalObservation} (ho : Ending id o) (w : WaiterRef) :
    resolutions w (o :: h) = Acp.resolutions w h :=
  resolutions_cons (by rcases ho with rfl | rfl <;> rfl)

/-- All that wait when the terminal ends are told, and those that were told before are not. -/
theorem Told.finish (ht : Told h id) (he : Entry h id t) {o : TerminalObservation}
    (ho : Ending id o) (result : WaitForTerminalExitResult) :
    Told (tellings result t.waiters ++ o :: h) id := by
  intro w hw
  have hold : .waits w id ∈ h := by
    rcases List.mem_append.mp hw with hm | hm
    · cases terminal_tellings hm
    · refine List.mem_of_ne_of_mem ?_ hm
      rcases ho with rfl | rfl <;> simp
  have hended : Ended (tellings result t.waiters ++ o :: h) id := by
    rcases ho with rfl | rfl
    · exact .inl (List.mem_append_right _ (.head _))
    · exact .inr (.inr (List.mem_append_right _ (.head _)))
  refine ⟨fun _ => ?_, fun hnot => absurd hended hnot⟩
  rw [resolutions_append, resolutions_tellings, ho.resolutions, he.nodup.count]
  by_cases hmem : w ∈ t.waiters
  · rw [if_pos hmem, ((he.waiters w).mp hmem).2]
  · have htold : resolutions w h ≠ 0 := fun hzero => hmem ((he.waiters w).mpr ⟨hold, hzero⟩)
    rw [if_neg hmem, Nat.zero_add]
    by_contra hone
    exact htold ((ht w hold).2 fun hend => hone ((ht w hold).1 hend))

/-- Only those that wait for the terminal are told. -/
theorem Entry.told_waits (he : Entry h id t) {o : TerminalObservation} (ho : Ending id o)
    (result : WaitForTerminalExitResult) {w : WaiterRef}
    (hres : resolutions w (tellings result t.waiters ++ [o]) ≠ 0) : .waits w id ∈ h := by
  rw [resolutions_append, resolutions_tellings, ho.resolutions] at hres
  have hcount : t.waiters.count w ≠ 0 := by simpa [resolutions] using hres
  exact ((he.waiters w).mp (List.count_pos_iff.mp (Nat.pos_of_ne_zero hcount))).1

theorem about_tellings {result : WaitForTerminalExitResult} {waiters : List WaiterRef}
    {o o' : TerminalObservation} (ho : Ending id o) (ho' : o' ∈ tellings result waiters ++ [o])
    {id' : String} (heq : o'.terminal = some id') : id' = id := by
  rcases List.mem_append.mp ho' with hm | hm
  · rw [terminal_tellings hm] at heq
    cases heq
  · obtain rfl := List.mem_singleton.mp hm
    rw [ho.terminal] at heq
    exact (Option.some.inj heq).symm

theorem waits_tellings {result : WaitForTerminalExitResult} {waiters : List WaiterRef}
    {o : TerminalObservation} (ho : Ending id o) (w : WaiterRef) (id' : String) :
    .waits w id' ∉ tellings result waiters ++ [o] := by
  intro hm
  rcases List.mem_append.mp hm with hm | hm
  · cases terminal_tellings hm
  · rcases ho with rfl | rfl <;> simp at hm

end Resolve

/-! ### The events -/

section Events

variable {m : TerminalManager} {id : String} {t : Terminal}

theorem books_init : Books {} ∧ WaitsResolve {} := by
  refine ⟨⟨?_, ?_, ?_, ?_, ?_, ?_, ?_⟩, ⟨?_, ?_⟩⟩
  all_goals simp [Told, resolutions]

/-- Neither filed nor spoken of before. -/
theorem Books.fresh (hb : Books m) : m.terminals.lookup (terminalId m.nextId) = none ∧
    ∀ o ∈ m.history, o.terminal ≠ some (terminalId m.nextId) := by
  have hnew : ¬∃ n < m.nextId, terminalId m.nextId = terminalId n := by
    rintro ⟨n, hn, heq⟩
    have hrepr := natRepr_inj ((String.append_right_inj _).mp heq)
    omega
  refine ⟨?_, fun o ho heq => hnew (hb.about ho heq)⟩
  by_contra hl
  obtain ⟨t, hl⟩ := Option.ne_none_iff_exists'.mp hl
  exact hnew (hb.named hl)

theorem createTerminal_right (hb : Books m) (hw : WaitsResolve m) (params : CreateTerminalParams)
    (startFails : Bool) :
    Books (m.createTerminal params startFails).1 ∧
      WaitsResolve (m.createTerminal params startFails).1 := by
  obtain ⟨hfile, hsaid⟩ := hb.fresh
  let id := terminalId m.nextId
  let news : List TerminalObservation := if startFails then [.failedToStart id] else []
  have hnews : ∀ o ∈ news, o = .failedToStart id := by
    intro o ho
    cases startFails with
    | true => exact List.mem_singleton.mp ho
    | false => exact absurd ho (List.not_mem_nil)
  have hhistory : (m.createTerminal params startFails).1.history = news ++ m.history := by
    cases startFails <;> rfl
  have hlookup : (m.createTerminal params startFails).1.terminals.lookup id = some
      { process := if startFails then .notRunning else .starting
        byteLimit := (params.outputByteLimit.map Int32.toInt).getD 0 } := by
    cases startFails <;> exact AList.lookup_insert ..
  have hc : Concerns m (m.createTerminal params startFails).1 id news :=
    { history := hhistory
      about := fun o ho id' heq => by
        rw [hnews o ho] at heq
        exact (Option.some.inj heq).symm
      resolved := fun w hres => absurd (by
        cases startFails <;> rfl) hres
      waits := fun w id' hm => by cases hnews _ hm
      lookup := fun id' hne => by cases startFails <;> exact AList.lookup_insert_ne hne
      named := ⟨m.nextId, by cases startFails <;> exact Nat.lt_succ_self _, rfl⟩
      nextId := by cases startFails <;> exact Nat.le_succ _
      nextWaiter := by cases startFails <;> exact le_rfl }
  have hunwaited : ∀ w, .waits w id ∉ news ++ m.history := fun w hm =>
    (List.mem_append.mp hm).elim (fun hm => by cases hnews _ hm) fun hm => hsaid _ hm rfl
  have hnot : ∀ {o : TerminalObservation}, o.terminal = some id → o ≠ .failedToStart id →
      o ∉ news ++ m.history := fun heq hne hm =>
    (List.mem_append.mp hm).elim (fun hm => hne (hnews _ hm)) fun hm => hsaid _ hm heq
  refine ⟨hb.step hc (fun t₁ hl₁ => ?_) fun hnone => ?_,
    hw.step hb hc (fun t₁ hl₁ => ?_) fun w hm => ?_⟩
  · obtain rfl := Option.some.inj (hlookup.symm.trans hl₁)
    rw [hhistory]
    refine ⟨hnot rfl (by simp), ?_, ?_, List.nodup_nil, fun w => ?_⟩
    · simpa using hnot (o := .finished id) rfl (by simp)
    · have hfinished := hnot (o := .finished id) rfl (by simp)
      cases startFails with
      | true => simp [news]
      | false => simpa [news] using ⟨hfinished, fun hm => hsaid _ hm rfl⟩
    · exact iff_of_false (List.not_mem_nil) fun hm => hunwaited w hm.1
  · rw [hlookup] at hnone
    cases hnone
  · obtain rfl := Option.some.inj (hlookup.symm.trans hl₁)
    exact fun hne => absurd rfl hne
  · rw [hhistory] at hm
    exact absurd hm (hunwaited w)

theorem waitForExit_right (hb : Books m) (hw : WaitsResolve m)
    (hok : ∀ t, m.terminals.lookup id = some t → t.process = .notRunning → t.finished = true) :
    Books (m.waitForExit id).1 ∧ WaitsResolve (m.waitForExit id).1 := by
  unfold TerminalManager.waitForExit
  cases hl : m.terminals.lookup id with
  | none => exact ⟨hb, hw⟩
  | some t =>
      show Books (if t.finished then _ else _ : TerminalManager × WaitForExitReply).1 ∧
        WaitsResolve (if t.finished then _ else _ : TerminalManager × WaitForExitReply).1
      by_cases hfin : t.finished = true
      · rw [if_pos hfin]
        exact ⟨hb, hw⟩
      · rw [if_neg hfin]
        have he := hb.entry hl
        have halive : t.process ≠ .notRunning := fun hstopped => hfin (hok t hl hstopped)
        have hgoing : ¬Ended m.history id := by
          rintro (hm | hm | hm)
          · exact halive (he.stopped.mpr (.inl hm))
          · exact halive (he.stopped.mpr (.inr hm))
          · exact he.unreleased hm
        have hunresolved : resolutions m.nextWaiter m.history = 0 := by
          by_contra hres
          exact absurd (hb.resolved hres) (lt_irrefl _)
        let t' : Terminal := { t with waiters := t.waiters ++ [m.nextWaiter] }
        have hc : Concerns m (({ m with nextWaiter := m.nextWaiter + 1 }.observe
            (.waits m.nextWaiter id)).put id t') id [.waits m.nextWaiter id] :=
          { history := rfl
            about := fun o ho id' heq => by
              obtain rfl := List.mem_singleton.mp ho
              exact (Option.some.inj heq).symm
            resolved := fun w hres => absurd rfl hres
            waits := fun w id' hm => by
              cases List.mem_singleton.mp hm
              exact ⟨le_rfl, Nat.lt_succ_self _⟩
            lookup := fun id' hne => AList.lookup_insert_ne hne
            named := hb.named hl
            nextId := le_rfl
            nextWaiter := Nat.le_succ _ }
        have hsame : ∀ {w}, resolutions w (.waits m.nextWaiter id :: m.history) =
            resolutions w m.history := resolutions_cons rfl
        refine ⟨hb.step hc (fun t₁ hl₁ => ?_) fun hnone => ?_,
          hw.step hb hc (fun t₁ hl₁ _ => ?_) fun w hm => ?_⟩
        · obtain rfl := Option.some.inj ((lookup_put t').symm.trans hl₁)
          show Entry (.waits m.nextWaiter id :: m.history) id t'
          refine ⟨by simpa using he.unreleased, by simpa using he.finished,
            by simpa using he.stopped, ?_, fun w => ?_⟩
          · refine List.nodup_append.mpr ⟨he.nodup, List.nodup_singleton _, ?_⟩
            rintro a ha b hb' rfl
            rw [List.mem_singleton.mp hb'] at ha
            exact absurd (hb.waits ((he.waiters _).mp ha).1) (lt_irrefl _)
          · rw [hsame]
            show w ∈ t.waiters ++ [m.nextWaiter] ↔ _
            rw [List.mem_append, he.waiters w, List.mem_singleton, List.mem_cons]
            constructor
            · rintro (⟨hold, hres⟩ | rfl)
              · exact ⟨.inr hold, hres⟩
              · exact ⟨.inl rfl, hunresolved⟩
            · rintro ⟨heq | hold, hres⟩
              · cases heq
                exact .inr rfl
              · exact .inl ⟨hold, hres⟩
        · rw [lookup_put] at hnone
          cases hnone
        · obtain rfl := Option.some.inj ((lookup_put t').symm.trans hl₁)
          exact halive
        · have hstill : ¬Ended (.waits m.nextWaiter id :: m.history) id := by
            simpa [Ended] using hgoing
          refine ⟨fun hend => absurd hend hstill, fun _ => ?_⟩
          show resolutions w (.waits m.nextWaiter id :: m.history) = 0
          rw [hsame]
          rcases List.mem_cons.mp hm with heq | hold
          · cases heq
            exact hunresolved
          · exact (hw.told id w hold).2 hgoing

theorem killTerminal_right (hb : Books m) (hw : WaitsResolve m) (id : String) :
    Books (m.killTerminal id) ∧ WaitsResolve (m.killTerminal id) := by
  unfold TerminalManager.killTerminal
  cases hl : m.terminals.lookup id with
  | none => exact ⟨hb, hw⟩
  | some t =>
      show Books (if t.process = .notRunning then _ else _) ∧
        WaitsResolve (if t.process = .notRunning then _ else _)
      split
      · exact ⟨hb, hw⟩
      · have hc : Concerns m (m.observe (.killed id)) id [.killed id] :=
          { history := rfl
            about := fun o ho id' heq => by
              obtain rfl := List.mem_singleton.mp ho
              exact (Option.some.inj heq).symm
            resolved := fun w hres => absurd rfl hres
            waits := fun w id' hm => by cases List.mem_singleton.mp hm
            lookup := fun id' _ => rfl
            named := hb.named hl
            nextId := le_rfl
            nextWaiter := le_rfl }
        have hsame : ∀ {w}, resolutions w (.killed id :: m.history) = resolutions w m.history :=
          resolutions_cons rfl
        refine ⟨hb.step hc (fun t₁ hl₁ => ?_) fun hnone => ?_,
          hw.step hb hc (fun t₁ hl₁ => hw.active id t₁ hl₁) fun w hm => ?_⟩
        · have he := hb.entry hl₁
          show Entry (.killed id :: m.history) id t₁
          exact ⟨by simpa using he.unreleased, by simpa using he.finished,
            by simpa using he.stopped, he.nodup, fun w => by
              rw [hsame, he.waiters w]
              simp⟩
        · exact absurd (hl.symm.trans hnone) (by simp)
        · show (Ended (.killed id :: m.history) id → resolutions w (.killed id :: m.history) = 1) ∧
            (¬Ended (.killed id :: m.history) id → resolutions w (.killed id :: m.history) = 0)
          rw [hsame]
          simpa [Ended] using hw.told id w (List.mem_of_ne_of_mem (by simp) hm)

theorem releaseTerminal_right (hb : Books m) (hw : WaitsResolve m) (id : String) :
    Books (m.releaseTerminal id) ∧ WaitsResolve (m.releaseTerminal id) := by
  unfold TerminalManager.releaseTerminal
  cases hl : m.terminals.lookup id with
  | none => exact ⟨hb, hw⟩
  | some t =>
      dsimp only
      rw [resolve_eq]
      have he := hb.entry hl
      have hend : Ending id (.released id) := .inr rfl
      have hnone : (m.terminals.erase id).lookup id = none := AList.lookup_erase ..
      have hc : Concerns m { m with
          terminals := m.terminals.erase id
          history := tellings t.exitResult t.waiters ++ .released id :: m.history } id
          (tellings t.exitResult t.waiters ++ [.released id]) :=
        { history := by simp
          about := fun o ho id' heq => about_tellings hend ho heq
          resolved := fun w hres => he.told_waits hend t.exitResult hres
          waits := fun w id' hm => absurd hm (waits_tellings hend w id')
          lookup := fun id' hne => AList.lookup_erase_ne hne
          named := hb.named hl
          nextId := le_rfl
          nextWaiter := le_rfl }
      refine ⟨hb.step hc (fun t₁ hl₁ => ?_) fun _ => List.mem_append_right _ (.head _),
        hw.step hb hc (fun t₁ hl₁ => ?_) ((hw.told id).finish he hend t.exitResult)⟩
      · exact absurd (hnone.symm.trans hl₁) (by simp)
      · exact absurd (hnone.symm.trans hl₁) (by simp)

theorem onFinished_right (hb : Books m) (hw : WaitsResolve m)
    (hl : m.terminals.lookup id = some t) (rest : Bytes) (exitCode : Int32) (normalExit : Bool) :
    Books (m.onFinished id t rest exitCode normalExit) ∧
      WaitsResolve (m.onFinished id t rest exitCode normalExit) := by
  have he := hb.entry hl
  have hend : Ending id (.finished id) := .inl rfl
  let finished := t.finish rest exitCode normalExit
  have hstate : finished.finished = true ∧ finished.process = .notRunning := by
    unfold finished Terminal.finish
    cases normalExit <;> exact ⟨rfl, rfl⟩
  have hm' : m.onFinished id t rest exitCode normalExit =
      { m with history := (tellings finished.exitResult t.waiters ++
        [TerminalObservation.finished id]) ++ m.history }.put id { finished with waiters := [] } := by
    unfold TerminalManager.onFinished
    dsimp only
    rw [resolve_eq, List.append_assoc]
    rfl
  have hc := concerns_put (tellings finished.exitResult t.waiters ++ [.finished id])
    { finished with waiters := [] } hb hl
    (fun o ho id' heq => about_tellings hend ho heq)
    (fun w hres => he.told_waits hend _ hres) (waits_tellings hend)
  have htold := (hw.told id).finish he hend finished.exitResult
  rw [hm']
  refine ⟨hb.step hc (fun t₁ hl₁ => ?_) fun hnone => ?_, hw.step hb hc (fun t₁ hl₁ => ?_) ?_⟩
  · obtain rfl := Option.some.inj ((lookup_put _).symm.trans hl₁)
    rw [hc.history]
    have hhere : TerminalObservation.finished id ∈
        (tellings finished.exitResult t.waiters ++ [.finished id]) ++ m.history := by simp
    refine ⟨fun hm => ?_, iff_of_true hstate.1 hhere, iff_of_true hstate.2 (.inl hhere),
      List.nodup_nil, fun w => iff_of_false List.not_mem_nil fun hm => ?_⟩
    · simp only [List.append_assoc, List.singleton_append, List.mem_append, List.mem_cons,
        reduceCtorEq, false_or] at hm
      exact hm.elim (fun hm => by cases terminal_tellings hm) he.unreleased
    · rw [List.append_assoc] at hm hhere
      have hone := (htold w hm.1).1 (.inl hhere)
      exact absurd (hone.symm.trans hm.2) (by simp)
  · rw [lookup_put] at hnone
    cases hnone
  · obtain rfl := Option.some.inj ((lookup_put _).symm.trans hl₁)
    exact fun hne => absurd rfl hne
  · rw [hc.history, List.append_assoc]
    exact htold

theorem failedToStart_right (hb : Books m) (hw : WaitsResolve m)
    (hl : m.terminals.lookup id = some t) (hstarting : t.process = .starting)
    (hunwaited : t.waiters = []) :
    Books ((m.observe (.failedToStart id)).put id { t with process := .notRunning }) ∧
      WaitsResolve ((m.observe (.failedToStart id)).put id { t with process := .notRunning }) := by
  have he := hb.entry hl
  have hgoing : ¬Ended m.history id := by
    have hstop : ¬(.finished id ∈ m.history ∨ .failedToStart id ∈ m.history) := fun hm => by
      rw [he.stopped.mpr hm] at hstarting
      cases hstarting
    rintro (hm | hm | hm)
    · exact hstop (.inl hm)
    · exact hstop (.inr hm)
    · exact he.unreleased hm
  -- nobody has waited for it, since who waits is not told yet
  have hnobody : ∀ w, .waits w id ∉ m.history := fun w hm => by
    have hwaits := (he.waiters w).mpr ⟨hm, (hw.told id w hm).2 hgoing⟩
    rw [hunwaited] at hwaits
    cases hwaits
  have hc : Concerns m ((m.observe (.failedToStart id)).put id { t with process := .notRunning })
      id [.failedToStart id] :=
    concerns_put [.failedToStart id] _ hb hl (fun o ho id' heq => by
      obtain rfl := List.mem_singleton.mp ho
      exact (Option.some.inj heq).symm) (fun w hres => absurd rfl hres) (by simp)
  refine ⟨hb.step hc (fun t₁ hl₁ => ?_) fun hnone => ?_,
    hw.step hb hc (fun t₁ hl₁ hne => ?_) fun w hm => ?_⟩
  · obtain rfl := Option.some.inj ((lookup_put _).symm.trans hl₁)
    show Entry (.failedToStart id :: m.history) id { t with process := .notRunning }
    refine ⟨by simpa using he.unreleased, by simpa using he.finished,
      iff_of_true rfl (.inr (.head _)), he.nodup, fun w => iff_of_false ?_ fun hm => ?_⟩
    · show w ∉ t.waiters
      rw [hunwaited]
      exact List.not_mem_nil
    · exact hnobody w (List.mem_of_ne_of_mem (by simp) hm.1)
  · rw [lookup_put] at hnone
    cases hnone
  · obtain rfl := Option.some.inj ((lookup_put _).symm.trans hl₁)
    exact absurd hunwaited hne
  · exact absurd (List.mem_of_ne_of_mem (by simp) hm) (hnobody w)

theorem signal_right {state : ProcessState} {p : Terminal → TerminalManager} (hb : Books m)
    (hw : WaitsResolve m) (hp : ∀ t, m.terminals.lookup id = some t → t.process = state →
      Books (p t) ∧ WaitsResolve (p t)) :
    Books (m.signal id state p) ∧ WaitsResolve (m.signal id state p) := by
  unfold TerminalManager.signal
  cases hl : m.terminals.lookup id with
  | none => exact ⟨hb, hw⟩
  | some t =>
      show Books (if t.process = state then p t else m) ∧
        WaitsResolve (if t.process = state then p t else m)
      split
      · exact hp t hl ‹_›
      · exact ⟨hb, hw⟩

theorem appendOutput_rest (t : Terminal) (data : Bytes) :
    (t.appendOutput data).finished = t.finished ∧ (t.appendOutput data).waiters = t.waiters ∧
      (t.appendOutput data).process = t.process := by
  unfold Terminal.appendOutput
  split
  · exact ⟨rfl, rfl, rfl⟩
  · split <;> exact ⟨rfl, rfl, rfl⟩

/-- One step keeps the books and lets the waits resolve, if it is harmless. -/
theorem step_right (hb : Books m) (hw : WaitsResolve m) (e : TerminalEvent)
    (hok : Harmless m e) : Books (m.step e) ∧ WaitsResolve (m.step e) := by
  cases e with
  | createTerminal params startFails => exact createTerminal_right hb hw params startFails
  | waitForExit id => exact waitForExit_right hb hw hok
  | killTerminal id => exact killTerminal_right hb hw id
  | releaseTerminal id => exact releaseTerminal_right hb hw id
  | processStarted id =>
      refine signal_right hb hw fun t hl hstate => books_put hb hw hl rfl rfl ?_
      simp [hstate]
  | readyReadStandardOutput id data =>
      refine signal_right hb hw fun t hl hstate => ?_
      obtain ⟨hfinished, hwaiters, hprocess⟩ := appendOutput_rest t data
      exact books_put hb hw hl hfinished hwaiters (by rw [hprocess])
  | processFinished id rest exitCode normalExit =>
      exact signal_right hb hw fun t hl _ => onFinished_right hb hw hl rest exitCode normalExit
  | processFailedToStart id =>
      exact signal_right hb hw fun t hl hstate =>
        failedToStart_right hb hw hl hstate (hok t hl hstate)

/-- A step that is not harmless leaves somebody waiting for a process that has ended. -/
theorem not_resolve_of_not_harmless {e : TerminalEvent} (hnot : ¬Harmless m e) :
    ¬WaitsResolve (m.step e) := by
  intro hw
  cases e with
  | waitForExit id =>
      unfold Harmless at hnot
      push Not at hnot
      obtain ⟨t, hl, hstopped, hunfinished⟩ := hnot
      have hstep : m.step (.waitForExit id) = ({ m with nextWaiter := m.nextWaiter + 1 }.observe
          (.waits m.nextWaiter id)).put id { t with waiters := t.waiters ++ [m.nextWaiter] } := by
        show (m.waitForExit id).1 = _
        unfold TerminalManager.waitForExit
        rw [hl]
        dsimp only
        rw [if_neg hunfinished]
      refine hw.active id { t with waiters := t.waiters ++ [m.nextWaiter] } ?_ (by simp) hstopped
      rw [hstep]
      exact lookup_put _
  | processFailedToStart id =>
      unfold Harmless at hnot
      push Not at hnot
      obtain ⟨t, hl, hstarting, hwaited⟩ := hnot
      have hstep : m.step (.processFailedToStart id) =
          (m.observe (.failedToStart id)).put id { t with process := .notRunning } := by
        show m.signal id .starting _ = _
        unfold TerminalManager.signal
        rw [hl]
        dsimp only
        rw [if_pos hstarting]
      refine hw.active id { t with process := .notRunning } ?_ hwaited rfl
      rw [hstep]
      exact lookup_put _
  | _ => exact hnot trivial

end Events

/-- In every state of a run the waits resolve if and only if every step of the run is harmless: no
process fails to start that somebody waits for, and nobody waits for one that has failed. -/
theorem waits_resolve_iff (events : List TerminalEvent) :
    (∀ before, before <+: events → WaitsResolve (TerminalManager.run before)) ↔
      ∀ before e, before ++ [e] <+: events → Harmless (TerminalManager.run before) e := by
  have hrun : ∀ before e, TerminalManager.run (before ++ [e]) =
      (TerminalManager.run before).step e := fun before e => by
    simp [TerminalManager.run]
  constructor
  · intro hall before e hpre
    by_contra hnot
    exact not_resolve_of_not_harmless hnot (hrun before e ▸ hall _ hpre)
  · intro hok before
    have hboth : before <+: events →
        Books (TerminalManager.run before) ∧ WaitsResolve (TerminalManager.run before) := by
      induction before using List.reverseRecOn with
      | nil => exact fun _ => books_init
      | append_singleton before e ih =>
          intro hpre
          obtain ⟨hb, hw⟩ := ih ((List.prefix_append before [e]).trans hpre)
          rw [hrun]
          exact step_right hb hw e (hok before e hpre)
    exact fun hpre => (hboth hpre).2

/-- A command that does not exist, and somebody who waits for it. -/
theorem waits_resolve_not_failed : ¬WaitsResolve (TerminalManager.run
    [.createTerminal { command := "no-such-command" } false, .waitForExit "term-1",
      .processFailedToStart "term-1"]) := by
  intro hw
  exact hw.active "term-1" { process := .notRunning, waiters := [0] } rfl (by simp) rfl

end LLMQore.Acp
