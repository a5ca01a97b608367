import QuantForge.Framework.Machine
import QuantForge.Framework.Remote
import QuantForge.Storage.Common

namespace QuantForge

/-- What a caller does about a failure. -/
inductive StorageErrorKind
  | unavailable
  | contention
  | conflict
  | outcomeUnknown
  | durabilityUnmet
  | invalidArgument
  | schemaUnsupported
  | other
  deriving DecidableEq

def StorageError.kind : StorageError → StorageErrorKind
  | .invalidArgument _ | .inexactDecimal _ => .invalidArgument
  | .schemaUnsupported _ _ => .schemaUnsupported
  | .unavailable _ => .unavailable
  | .contention _ => .contention
  | .conflict _ => .conflict
  | .outcomeUnknown _ => .outcomeUnknown
  | .durabilityUnmet _ => .durabilityUnmet
  | .other _ => .other

namespace Postgres

open Remote

/-- A call's error: one of the storage port's, or a failure that it boxes. -/
inductive CallError
  | storage (error : StorageError)
  | other (text : String)
  deriving DecidableEq

def CallError.kind : CallError → StorageErrorKind
  | .storage error => error.kind
  | .other _ => .other

/-- An error of the driver, with its SQLSTATE where the server reported it. -/
structure DriverError where
  code : Option String
  text : String
  deriving DecidableEq

/-- The first two characters of an SQLSTATE. -/
def sqlClass (code : String) : String := String.ofList (code.toList.take 2)

/-- Whether an error leaves open what the server did: the connection failed, or
the server or what is before it ended the call. Any other report of the server
comes with a rollback. -/
def DriverError.undecided (error : DriverError) : Bool :=
  match error.code with
  | none => true
  | some code => sqlClass code == "08" || code == "57P01" || code == "57P02"

inductive Effect
  | read
  | write
  deriving DecidableEq

/-- A call that lost its answer: nothing changed for a read, anything may have
for a write. -/
def lost (effect : Effect) (what : String) : CallError :=
  match effect with
  | .read => .storage (.unavailable what)
  | .write => .storage (.outcomeUnknown what)

/-- Classifies a driver error. -/
def fromDriver (effect : Effect) (error : DriverError) : CallError :=
  match error.code with
  | none => lost effect ("the connection failed: " ++ error.text)
  | some code =>
    if code = "40001" ∨ code = "40P01" then
      .storage (.conflict s!"the server rolled the transaction back (SQLSTATE {code})")
    else if code = "55P03" then
      .storage (.contention "another writer held a lock past the wait")
    else if sqlClass code = "53" then
      .storage (.unavailable s!"the server is out of resources (SQLSTATE {code})")
    else if code = "57014" then lost effect ("the statement timed out: " ++ error.text)
    else if sqlClass code = "08" ∨ code = "57P01" ∨ code = "57P02" then
      lost effect ("the server ended the call: " ++ error.text)
    else .other error.text

/-- Why the pool handed over no connection. -/
inductive PoolError
  | wait
  | timeout
  | backend (error : DriverError)
  | unmet (problem : String)
  | other (text : String)

/-- Why a new connection failed. -/
def notConnected (error : DriverError) : StorageError :=
  let why := match error.code with
    | none => error.text
    | some code =>
      if sqlClass code = "28" then s!"the server refused the URL's user or password (SQLSTATE {code})"
      else if code = "3D000" then s!"the database the URL names does not exist (SQLSTATE {code})"
      else s!"the server refused it (SQLSTATE {code})"
  .unavailable ("cannot get a connection: " ++ why)

def fromPool : PoolError → StorageError
  | .wait => .unavailable "no free connection in time"
  | .timeout => .unavailable "cannot get a connection: the server did not answer in time"
  | .backend error => notConnected error
  | .unmet problem => .durabilityUnmet problem
  | .other text => .unavailable text

/-- Why the bridge could not wait for an answer. -/
inductive RunError
  | reentrant
  | foreignProcess (builtBy calledFrom : Nat)
  | watchdog (waitedMs : Nat)
  | shutDown
  deriving DecidableEq

def RunError.toText : RunError → String
  | .reentrant => "a storage call was made from the storage bridge's own thread, which would " ++
      "wait on itself"
  | .foreignProcess builtBy calledFrom =>
    s!"the storage bridge was built by process {builtBy} and cannot serve process {calledFrom}; " ++
      "open a store in each process"
  | .watchdog waitedMs => s!"the storage bridge did not answer within {waitedMs} ms"
  | .shutDown => "the storage bridge shut down before answering"

/-- A handle on the bridge: the deadline of its calls, and their budget where it
bounds them. -/
structure Bridge where
  deadlineMs : Nat
  budgetMs : Option Nat

namespace Bridge

/-- The deadline of a call through the handle. -/
def deadline (b : Bridge) : Nat :=
  match b.budgetMs with
  | none => b.deadlineMs
  | some budget => min budget b.deadlineMs

def bounded (b : Bridge) : Bool := b.budgetMs.isSome

def watchdogMarginMs : Nat := 5000

/-- How long the caller waits. -/
def watchdog (b : Bridge) : Nat := b.deadline + min watchdogMarginMs (b.deadline / 4)

end Bridge

variable {Q : Type} {A : Q → Type} {T : Type}

/-- Where a call's job is: its caller has not handed it over, it waits for a
connection, sets the session's limits, does its work, puts the limits back, or
has its reply ready; or it is over. Work whose request was executed has what it
hears next. -/
inductive Stage (Q : Type) (A : Q → Type) (T : Type)
  | calling
  | getting
  | limiting
  | working (work : Work Q A DriverError T) (told : Option (Work Q A DriverError T))
  | resetting (result : Except DriverError T)
  | replying (answer : Except CallError T)
  | gone

/-- A call: its job, the server's session, and what its caller was answered. -/
structure Call (Q : Type) (A : Q → Type) (T : Type) where
  stage : Stage Q A T
  session : Session Q A
  answer : Option (Except CallError T)

/-- What a call meets. -/
inductive Choice (Q : Type) (A : Q → Type)
  | spawns
  | reentrant
  | foreignProcess (builtBy calledFrom : Nat)
  | connects
  | unconnected (error : PoolError)
  | limits (done : Bool)
  | executes (verdict : Verdict Q A DriverError)
  | hears
  | breaks (text : String)
  | resets (done : Bool)
  | deadline
  | rollsBack
  | sessionDies
  | replies
  | watchdog
  | shutsDown
  | jobDropped

namespace Call

/-- A call as it is made. -/
def made : Call Q A T := ⟨.calling, .fresh, none⟩

/-- The job goes on with its work, or has its result. -/
def proceed (b : Bridge) (effect : Effect) (c : Call Q A T) (work : Work Q A DriverError T) :
    Call Q A T :=
  let session := c.session.issue work
  match work.result with
  | none => { c with stage := .working work none, session }
  | some result =>
    if b.bounded then { c with stage := .resetting result, session }
    else { c with stage := .replying (result.mapError (fromDriver effect)), session }

def reply (c : Call Q A T) (answer : Except CallError T) : Call Q A T :=
  { c with stage := .replying answer }

/-- The connection is dropped, and not used again. -/
def discard (c : Call Q A T) : Call Q A T := { c with session := c.session.cut }

/-- The job's deadline passes where it waits. -/
def overdue (b : Bridge) (effect : Effect) (c : Call Q A T) : Option (Call Q A T) :=
  match c.stage with
  | .getting =>
    some (c.reply (.error (.storage (.unavailable s!"no connection within {b.deadline} ms"))))
  | .limiting =>
    some (c.discard.reply (.error (.storage (.unavailable "cannot limit the session in time"))))
  | .working _ _ =>
    some (c.discard.reply (.error (lost effect s!"no answer within {b.deadline} ms")))
  | .resetting result => some (c.discard.reply (result.mapError (fromDriver effect)))
  | _ => none

/-- One step of a call, its job or the server. -/
def step (b : Bridge) (effect : Effect) (work : Work Q A DriverError T) (c : Call Q A T) :
    Choice Q A → Option (Call Q A T)
  | .spawns =>
    match c.stage with
    | .calling => some { c with stage := .getting }
    | _ => none
  | .reentrant =>
    match c.stage with
    | .calling =>
      some { c with stage := .gone, answer := some (.error (.other RunError.reentrant.toText)) }
    | _ => none
  | .foreignProcess builtBy calledFrom =>
    match c.stage with
    | .calling =>
      some { c with
        stage := .gone
        answer := some (.error (.other (RunError.foreignProcess builtBy calledFrom).toText)) }
    | _ => none
  | .connects =>
    match c.stage with
    | .getting => if b.bounded then some { c with stage := .limiting } else some (c.proceed b effect work)
    | _ => none
  | .unconnected error =>
    match c.stage with
    | .getting => some (c.reply (.error (.storage (fromPool error))))
    | _ => none
  | .limits done =>
    match c.stage with
    | .limiting =>
      if done then some (c.proceed b effect work)
      else
        some (c.discard.reply (.error (.storage (.unavailable "cannot limit the session in time"))))
    | _ => none
  | .executes verdict =>
    match c.session.execute DriverError.undecided verdict with
    | none => none
    | some session =>
      match c.stage with
      | .working w none => some { c with session, stage := .working w (some (w.hear verdict)) }
      | _ => some { c with session }
  | .hears =>
    match c.stage with
    | .working _ (some next) => some (c.proceed b effect next)
    | _ => none
  | .breaks text =>
    match c.stage with
    | .working w _ => some (c.discard.proceed b effect (w.fail ⟨none, text⟩))
    | _ => none
  | .resets done =>
    match c.stage with
    | .resetting result =>
      let c := if done then c else c.discard
      some (c.reply (result.mapError (fromDriver effect)))
    | _ => none
  | .deadline => c.overdue b effect
  | .rollsBack => some { c with session := c.session.rollBack }
  | .sessionDies => some { c with session := c.session.die }
  | .replies =>
    match c.stage, c.answer with
    | .replying answer, none => some { c with stage := .gone, answer := some answer }
    | _, _ => none
  | .watchdog =>
    match c.stage, c.answer with
    | .calling, _ => none
    | _, some _ => none
    | _, none =>
      some { c with answer := some (.error (lost effect (RunError.watchdog b.watchdog).toText)) }
  | .shutsDown =>
    match c.stage, c.answer with
    | .calling, _ => none
    | _, some _ => none
    | _, none => some { c with answer := some (.error (lost effect RunError.shutDown.toText)) }
  | .jobDropped =>
    match c.stage with
    | .calling => none
    | _ => some { c with stage := .gone, session := c.session.cut }

end Call

/-- `Bridge::execute` under every fault schedule. -/
def Bridge.execute (b : Bridge) (effect : Effect) (work : Work Q A DriverError T) :
    Machine (Call Q A T) (Choice Q A) Unit where
  step c choice :=
    match c.step b effect work choice with
    | some c => (.ok (), c)
    | none => (.error (), c)

end Postgres

end QuantForge
