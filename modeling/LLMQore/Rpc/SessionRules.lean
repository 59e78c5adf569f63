import LLMQore.Reentrant.Implement
import LLMQore.Rpc.Ledger

/-!
# LLMQore.Rpc.SessionRules

Rules for the session's code over any host.

Most of the session's code neither answers a request of the peer nor takes one
in. Such code keeps a contract that its call-outs keep (`Calls`) and that updates
outside the books keep (`Quiet`). The rules here say so once, for every host and
every contract. Last, all of the session's code has a property that sequences keep if what
its host does has it (`Stays`).
-/

namespace LLMQore.Rpc

open Reentrant

theorem isCall_requestMessage (id method : String) (params : JsonObject) :
    IsCall (requestMessage id method params) := by
  have hbase : ∀ key, (JsonObject.ofFields [("jsonrpc", .str "2.0"), ("id", .str id),
      ("method", .str method)]).contains key =
      ("jsonrpc" == key || ("id" == key || ("method" == key || false))) :=
    fun key => JsonObject.contains_ofFields key (by simp [JsonValue.isUndefined])
  unfold requestMessage
  dsimp only
  split
  · exact ⟨(hbase _).trans (by decide), (hbase _).trans (by decide)⟩
  · constructor
    · rw [JsonObject.contains_insert _ _ _ rfl, hbase]; decide
    · rw [JsonObject.contains_insert _ _ _ rfl, hbase]; decide

theorem isCall_notificationMessage (method : String) (params : JsonObject) :
    IsCall (notificationMessage method params) := by
  have hbase : ∀ key, (JsonObject.ofFields [("jsonrpc", .str "2.0"),
      ("method", .str method)]).contains key = ("jsonrpc" == key || ("method" == key || false)) :=
    fun key => JsonObject.contains_ofFields key (by simp [JsonValue.isUndefined])
  unfold notificationMessage
  dsimp only
  split
  · exact ⟨(hbase _).trans (by decide), (hbase _).trans (by decide)⟩
  · constructor
    · rw [JsonObject.contains_insert _ _ _ rfl, hbase]; decide
    · rw [JsonObject.contains_insert _ _ _ rfl, hbase]; decide

variable {S : Sig} {H : SessionHost S} {ans : S.State → (e : S.Out) → S.Ans e → Prop}
  {C : Contract S}

namespace SessionHost

/-- The call-outs of the session keep the contract. -/
structure Calls (H : SessionHost S) (ans : S.State → (e : S.Out) → S.Ans e → Prop)
    (C : Contract S) : Prop extends C.Preorder where
  send : ∀ message, IsCall message → C.Keeps ans (H.send none message)
  abandon : ∀ id, C.Keeps ans (H.abandon id)
  emit : ∀ signal, C.Keeps ans (H.emit signal)
  notify : ∀ method params, C.Keeps ans (H.notify method params)
  progress : ∀ token progress total message,
    C.Keeps ans (H.progress token progress total message)

/-- Updates that leave the books and the notification handlers alone keep the
contract too. -/
structure Quiet (H : SessionHost S) (ans : S.State → (e : S.Out) → S.Ans e → Prop)
    (C : Contract S) : Prop extends Calls H ans C where
  update : ∀ f : Session → Session, (∀ s, (f s).books = s.books) →
    (∀ s, (f s).notifyHandlers = s.notifyHandlers) → C.Keeps ans (H.modify f)

namespace Calls

theorem sendNotification (hC : Calls H ans C) (method : String) (params : JsonObject) :
    C.Keeps ans (H.sendNotification method params) := by
  refine Contract.Keeps.bind hC.toPreorder (Contract.Keeps.reads hC.toPreorder _) fun isOpen => ?_
  exact Contract.Keeps.ite _ (fun _ => hC.send _ (isCall_notificationMessage method params))
    fun _ => Contract.Keeps.pure hC.toPreorder _

theorem abandonRequest (hC : Calls H ans C) (id method reason : String) :
    C.Keeps ans (H.abandonRequest id method reason) := by
  refine Contract.Keeps.bind hC.toPreorder (Contract.Keeps.reads hC.toPreorder _) fun isOpen => ?_
  refine Contract.Keeps.ite _ (fun _ => ?_) fun _ => Contract.Keeps.pure hC.toPreorder _
  refine Contract.Keeps.bind hC.toPreorder ?_ fun _ => hC.abandon id
  exact Contract.Keeps.ite _ (fun _ => hC.sendNotification _ _)
    fun _ => Contract.Keeps.pure hC.toPreorder _

theorem sendProgress (hC : Calls H ans C) (token : String) (progress total : Rat)
    (message : String) : C.Keeps ans (H.sendProgress token progress total message) :=
  Contract.Keeps.ite _ (fun _ => Contract.Keeps.pure hC.toPreorder _)
    fun _ => hC.sendNotification _ _

theorem progressHandler (hC : Calls H ans C) (params : JsonObject) :
    C.Keeps ans (H.progressHandler params) := by
  refine Contract.Keeps.bind hC.toPreorder (hC.emit _) fun _ => ?_
  refine Contract.Keeps.bind hC.toPreorder (Contract.Keeps.reads hC.toPreorder _) fun tokens => ?_
  exact Contract.Keeps.ite _ (fun _ => hC.progress _ _ _ _)
    fun _ => Contract.Keeps.pure hC.toPreorder _

/-- Every handler of a notification but the built-in one for cancellations. -/
theorem runNotifyHandler (hC : Calls H ans C) (method : String) (params : JsonObject)
    {handler : Option NotifyHandler} (h : handler ≠ some .cancelled) :
    C.Keeps ans (H.runNotifyHandler method params handler) := by
  cases handler with
  | none => exact Contract.Keeps.pure hC.toPreorder ()
  | some handler =>
      cases handler with
      | cancelled => exact absurd rfl h
      | progress => exact hC.progressHandler params
      | user => exact hC.notify _ _

/-- Code that looks an entry of `m_pending` up keeps a contract if what it does
with the entry does. -/
theorem lookup (hC : Calls H ans C) (id : String) {found : Pending → Proc S Unit}
    (h : ∀ p s, C.inv s → (H.session s).pending.lookup id = some p →
      wp ans C (found p) (fun _ s' => C.inv s' ∧ C.rely s s') s) :
    C.Keeps ans (do
      match (← H.reads (·.pending)).lookup id with
      | none => pure ()
      | some p => found p) := by
  intro s hs
  change wp ans C (match (H.session s).pending.lookup id with
    | none => pure ()
    | some p => found p) _ s
  cases hp : (H.session s).pending.lookup id with
  | none => exact ⟨hs, hC.refl s⟩
  | some p => exact h p s hs hp

end Calls

end SessionHost

/-! ### Updates outside the books -/

theorem dropPending_books (s : Session) (id : String) (p : Pending) :
    (s.dropPending id p).books = s.books := by
  unfold Session.dropPending
  split <;> rfl

theorem dropPending_notifyHandlers (s : Session) (id : String) (p : Pending) :
    (s.dropPending id p).notifyHandlers = s.notifyHandlers := by
  unfold Session.dropPending
  split <;> rfl

theorem abortEntries_books (reason : String) (entries : List (Sigma fun _ : String => Pending)) :
    ∀ s : Session, (Session.abortEntries reason entries s).books = s.books ∧
      (Session.abortEntries reason entries s).notifyHandlers = s.notifyHandlers := by
  induction entries with
  | nil => exact fun _ => ⟨rfl, rfl⟩
  | cons e rest ih =>
      intro s
      obtain ⟨hb, hn⟩ := ih ((s.settle e.2.promise (.exception (.transportError reason))).dropPending
        e.1 e.2)
      rw [dropPending_books] at hb
      rw [dropPending_notifyHandlers] at hn
      exact ⟨hb, hn⟩

namespace SessionHost.Quiet

theorem dropPending (hC : Quiet H ans C) (id : String) (p : Pending) :
    C.Keeps ans (H.modify fun s => s.dropPending id p) :=
  hC.update _ (fun s => dropPending_books s id p) fun s => dropPending_notifyHandlers s id p

theorem settle (hC : Quiet H ans C) (q : PromiseId) (o : Outcome) :
    C.Keeps ans (H.modify fun s => s.settle q o) :=
  hC.update _ (fun _ => rfl) fun _ => rfl

theorem drop_settle (hC : Quiet H ans C) (id : String) (p : Pending) (o : Outcome) :
    C.Keeps ans (H.modify fun s => (s.dropPending id p).settle p.promise o) :=
  hC.update _ (fun s => dropPending_books s id p) fun s => dropPending_notifyHandlers s id p

theorem abortPending (hC : Quiet H ans C) (reason : String) :
    C.Keeps ans (H.abortPending reason) :=
  hC.update _ (fun s => (abortEntries_books reason s.pending.entries s).1)
    fun s => (abortEntries_books reason s.pending.entries s).2

theorem sendRequestImpl (hC : Quiet H ans C) (method : String) (params : JsonObject)
    (tracked : Bool) : C.Keeps ans (H.sendRequestImpl method params tracked) := by
  have hP := hC.toPreorder
  refine Contract.Keeps.bind hP ?_ fun promise => ?_
  · refine Contract.Keeps.bind hP (Contract.Keeps.reads hP _) fun promise => ?_
    exact Contract.Keeps.bind hP (hC.update _ (fun _ => rfl) fun _ => rfl)
      fun _ => Contract.Keeps.pure hP _
  · refine Contract.Keeps.bind hP (Contract.Keeps.reads hP _) fun isOpen => ?_
    refine Contract.Keeps.ite _ (fun _ => ?_) fun _ => ?_
    · exact Contract.Keeps.bind hP (hC.settle _ _) fun _ => Contract.Keeps.pure hP _
    · refine Contract.Keeps.bind hP ?_ fun id => ?_
      · refine Contract.Keeps.bind hP (Contract.Keeps.reads hP _) fun next => ?_
        exact Contract.Keeps.bind hP (hC.update _ (fun _ => rfl) fun _ => rfl)
          fun _ => Contract.Keeps.pure hP _
      · refine Contract.Keeps.bind hP (hC.update _ (fun _ => rfl) fun _ => rfl) fun _ => ?_
        exact Contract.Keeps.bind hP (hC.send _ (isCall_requestMessage _ _ _))
          fun _ => Contract.Keeps.pure hP _

theorem onTimeout (hC : Quiet H ans C) (id : String) : C.Keeps ans (H.onTimeout id) := by
  refine hC.lookup id fun p s hs _ => ?_
  refine Contract.Keeps.bind hC.toPreorder (hC.dropPending id p) (fun _ => ?_) s hs
  exact Contract.Keeps.bind hC.toPreorder (hC.abandonRequest _ _ _) fun _ => hC.settle _ _

theorem cancelRequest (hC : Quiet H ans C) (id reason : String) :
    C.Keeps ans (H.cancelRequest id reason) := by
  refine hC.lookup id fun p s hs _ => ?_
  refine Contract.Keeps.bind hC.toPreorder (hC.dropPending id p) (fun _ => ?_) s hs
  exact Contract.Keeps.bind hC.toPreorder (hC.abandonRequest _ _ _) fun _ => hC.settle _ _

theorem timerExpired (hC : Quiet H ans C) (t : PromiseId) : C.Keeps ans (H.timerExpired t) := by
  refine Contract.Keeps.bind hC.toPreorder (Contract.Keeps.reads hC.toPreorder _) fun timers => ?_
  cases timers.lookup t with
  | none => exact Contract.Keeps.pure hC.toPreorder ()
  | some id =>
      exact Contract.Keeps.bind hC.toPreorder (hC.update _ (fun _ => rfl) fun _ => rfl)
        fun _ => hC.onTimeout id

theorem dispatchResponse (hC : Quiet H ans C) (message : JsonObject) :
    C.Keeps ans (H.dispatchResponse message) :=
  Contract.Keeps.ite _ (fun _ => Contract.Keeps.pure hC.toPreorder ()) fun _ =>
    hC.lookup _ fun p s hs _ => hC.drop_settle _ p _ s hs

theorem onSendFailed (hC : Quiet H ans C) (message : JsonObject) (reason : String) :
    C.Keeps ans (H.onSendFailed message reason) :=
  Contract.Keeps.ite _ (fun _ => hC.lookup _ fun p s hs _ => hC.drop_settle _ p _ s hs)
    fun _ => Contract.Keeps.pure hC.toPreorder ()

theorem setRequestHandler (hC : Quiet H ans C) (method : String) (handler : Bool) :
    C.Keeps ans (H.setRequestHandler method handler) :=
  hC.update _ (fun _ => rfl) fun _ => rfl

theorem setProgressHandler (hC : Quiet H ans C) (token : String) (handler : Bool) :
    C.Keeps ans (H.setProgressHandler token handler) := by
  refine hC.update _ (fun s => ?_) fun s => ?_
  · cases handler <;> rfl
  · cases handler <;> rfl

/-- Every call but those that concern the books or the notification handlers. -/
theorem call (hC : Quiet H ans C)
    (hset : ∀ method handler, C.Keeps ans (H.setNotificationHandler method handler))
    {c : SessionCall}
    (hfin : ∀ tag outcome, c = .handlerFinished tag outcome →
      C.Keeps ans (H.handlerFinished tag outcome)) : C.Keeps ans (H.call c) := by
  cases c with
  | sendRequest method params tracked =>
      exact Contract.Keeps.bind hC.toPreorder (hC.sendRequestImpl method params tracked)
        fun _ => Contract.Keeps.pure hC.toPreorder ()
  | cancelRequest id reason => exact hC.cancelRequest id reason
  | sendNotification method params => exact hC.sendNotification method params
  | sendProgress token progress total message => exact hC.sendProgress token progress total message
  | setRequestHandler method handler => exact hC.setRequestHandler method handler
  | setNotificationHandler method handler => exact hset method handler
  | setProgressHandler token handler => exact hC.setProgressHandler token handler
  | abortPending reason => exact hC.abortPending reason
  | timerExpired timer => exact hC.timerExpired timer
  | handlerFinished tag outcome => exact hfin tag outcome rfl

end SessionHost.Quiet

/-! ### Code with a property that sequences keep -/

namespace SessionHost

/-- What the host does for the session, and any update of the session, has a property that
sequences keep. -/
structure Stays (H : SessionHost S) (P : (α : Type) → Proc S α → Prop) : Prop
    extends Composes P where
  send : ∀ tag message, P _ (H.send tag message)
  abandon : ∀ id, P _ (H.abandon id)
  emit : ∀ signal, P _ (H.emit signal)
  handle : ∀ tag method params, P _ (H.handle tag method params)
  notify : ∀ method params, P _ (H.notify method params)
  progress : ∀ token progress total message, P _ (H.progress token progress total message)
  update : ∀ f : Session → Session, P _ (H.modify f)

namespace Stays

variable {P : (α : Type) → Proc S α → Prop}

theorem sendNotification (h : Stays H P) (method : String) (params : JsonObject) :
    P _ (H.sendNotification method params) :=
  h.bind (h.reads _) fun _ => h.ite _ (h.send _ _) (h.pure _)

theorem sendRequestImpl (h : Stays H P) (method : String) (params : JsonObject)
    (tracked : Bool) : P _ (H.sendRequestImpl method params tracked) := by
  have hpromise : P _ H.makePromise :=
    h.bind (h.reads _) fun _ => h.bind (h.update _) fun _ => h.pure _
  have hid : P _ H.allocateId :=
    h.bind (h.reads _) fun _ => h.bind (h.update _) fun _ => h.pure _
  refine h.bind hpromise fun _ => h.bind (h.reads _) fun _ => h.ite _ ?_ ?_
  · exact h.bind (h.update _) fun _ => h.pure _
  · exact h.bind hid fun _ => h.bind (h.update _) fun _ => h.bind (h.send _ _) fun _ => h.pure _

theorem abandonRequest (h : Stays H P) (id method reason : String) :
    P _ (H.abandonRequest id method reason) := by
  refine h.bind (h.reads _) fun _ => h.ite _ ?_ (h.pure _)
  exact h.bind (h.ite _ (h.sendNotification _ _) (h.pure _)) fun _ => h.abandon id

theorem lookup (h : Stays H P) (id : String) {found : Pending → Proc S Unit}
    (hfound : ∀ p, P _ (found p)) :
    P _ (do
      match (← H.reads (·.pending)).lookup id with
      | none => pure ()
      | some p => found p) :=
  h.bind (h.reads _) fun pending => by
    cases pending.lookup id with
    | none => exact h.pure _
    | some p => exact hfound p

theorem setRequestHandler (h : Stays H P) (method : String) (handler : Bool) :
    P _ (H.setRequestHandler method handler) :=
  h.update _

theorem setNotificationHandler (h : Stays H P) (method : String) (handler : Bool) :
    P _ (H.setNotificationHandler method handler) :=
  h.update _

theorem setProgressHandler (h : Stays H P) (token : String) (handler : Bool) :
    P _ (H.setProgressHandler token handler) :=
  h.update _

theorem abortPending (h : Stays H P) (reason : String) : P _ (H.abortPending reason) :=
  h.update _

theorem onTimeout (h : Stays H P) (id : String) : P _ (H.onTimeout id) :=
  h.lookup id fun _ => h.bind (h.update _) fun _ =>
    h.bind (h.abandonRequest _ _ _) fun _ => h.update _

theorem cancelRequest (h : Stays H P) (id reason : String) :
    P _ (H.cancelRequest id reason) :=
  h.lookup id fun _ => h.bind (h.update _) fun _ =>
    h.bind (h.abandonRequest _ _ _) fun _ => h.update _

theorem timerExpired (h : Stays H P) (t : PromiseId) : P _ (H.timerExpired t) := by
  refine h.bind (h.reads _) fun timers => ?_
  cases timers.lookup t with
  | none => exact h.pure _
  | some id => exact h.bind (h.update _) fun _ => h.onTimeout id

theorem dispatchResponse (h : Stays H P) (message : JsonObject) :
    P _ (H.dispatchResponse message) :=
  h.ite _ (h.pure _) (h.lookup _ fun _ => h.update _)

theorem sendProgress (h : Stays H P) (token : String) (progress total : Rat)
    (message : String) : P _ (H.sendProgress token progress total message) :=
  h.ite _ (h.pure _) (h.sendNotification _ _)

theorem runNotifyHandler (h : Stays H P) (method : String) (params : JsonObject)
    (handler : Option NotifyHandler) : P _ (H.runNotifyHandler method params handler) := by
  cases handler with
  | none => exact h.pure _
  | some handler =>
      cases handler with
      | cancelled => exact h.update _
      | progress =>
          exact h.bind (h.emit _) fun _ => h.bind (h.reads _) fun _ =>
            h.ite _ (h.progress _ _ _ _) (h.pure _)
      | user => exact h.notify _ _

theorem dispatchNotification (h : Stays H P) (message : JsonObject) :
    P _ (H.dispatchNotification message) :=
  h.bind (h.update _) fun _ => h.bind (h.reads _) fun _ =>
    h.bind (h.runNotifyHandler _ _ _) fun _ => h.emit _

theorem sendError (h : Stays H P) (tag : Option RequestTag) (id : JsonValue)
    (answer : ErrorAnswer) : P _ (H.sendError tag id answer) :=
  h.bind (h.reads _) fun _ => h.ite _ (h.send _ _) (h.pure _)

theorem dispatchRequest (h : Stays H P) (message : JsonObject) :
    P _ (H.dispatchRequest message) := by
  refine h.bind (h.reads _) fun tag => h.bind (h.update _) fun _ => h.bind (h.emit _) fun _ =>
    h.bind (h.reads _) fun handlers => h.ite _ ?_ ?_
  · refine h.bind (h.handle _ _ _) fun outcome => ?_
    cases outcome with
    | error e =>
        exact h.bind (h.update _) fun _ => h.bind (h.update _) fun _ => h.sendError _ _ _
    | ok a => exact h.bind (h.update _) fun _ => h.update _
  · exact h.bind (h.update _) fun _ => h.bind (h.update _) fun _ => h.sendError _ _ _

theorem handlerFinished (h : Stays H P) (tag : RequestTag) (outcome : FutureEnd) :
    P _ (H.handlerFinished tag outcome) := by
  refine h.bind (h.reads _) fun watchers => ?_
  cases watchers.lookup tag with
  | none => exact h.pure _
  | some w =>
      refine h.bind (h.update _) fun _ => h.bind (h.reads _) fun cancelled => h.ite _ ?_ ?_
      · exact h.bind (h.update _) fun _ => h.update _
      · refine h.bind (h.update _) fun _ => ?_
        cases outcome with
        | result v => exact h.bind (h.reads _) fun _ => h.ite _ (h.send _ _) (h.pure _)
        | exception e => exact h.sendError _ _ _
        | cancelled => exact h.pure _

theorem onMessageReceived (h : Stays H P) (message : JsonObject) :
    P _ (H.onMessageReceived message) := by
  refine h.ite _ (h.emit _) ?_
  cases classify message with
  | request => exact h.dispatchRequest message
  | notification => exact h.dispatchNotification message
  | response => exact h.dispatchResponse message
  | invalid => exact h.bind (h.sendError _ _ _) fun _ => h.emit _

theorem call (h : Stays H P) (c : SessionCall) : P _ (H.call c) := by
  cases c with
  | sendRequest method params tracked =>
      exact h.bind (h.sendRequestImpl method params tracked) fun _ => h.pure _
  | cancelRequest id reason => exact h.cancelRequest id reason
  | sendNotification method params => exact h.sendNotification method params
  | sendProgress token progress total message => exact h.sendProgress token progress total message
  | setRequestHandler method handler => exact h.setRequestHandler method handler
  | setNotificationHandler method handler => exact h.setNotificationHandler method handler
  | setProgressHandler token handler => exact h.setProgressHandler token handler
  | abortPending reason => exact h.abortPending reason
  | timerExpired timer => exact h.timerExpired timer
  | handlerFinished tag outcome => exact h.handlerFinished tag outcome

end Stays

/-- What the host does for the session, and any update of the session, is within a
relation. -/
abbrev Inside (H : SessionHost S) (R : S.State → S.State → Prop) (Q : S.Out → Prop) : Prop :=
  Stays H fun _ p => p.Within R Q

end SessionHost

end LLMQore.Rpc
