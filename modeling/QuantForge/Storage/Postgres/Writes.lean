import QuantForge.Model.Order
import QuantForge.Storage.Journal
import QuantForge.Storage.Postgres.Bridge
import QuantForge.Storage.Postgres.Candles
import QuantForge.Storage.Refresh
import QuantForge.Storage.RunColumns

namespace QuantForge.Postgres

open Refresh (Packed Written)
open Remote

/-- A statement of a write call, with what it is given. -/
inductive Statement
  | create (state : BotRunState) (stateJson : String) (identity : Storage.IdentityColumns)
      (identityAtMs : Int64)
  | save (state : BotRunState) (stateJson : String)
  | appendEvent (runId : String) (order : ExchangeOrder) (rawJson : String)
  | appendTrade (runId : String) (trade : ClosedTrade)
  | upsert (market : MarketId) (rows : List TextCandle)
  | mark (market : MarketId) (windows : List Int64)
  | lockMark (market : MarketId) (windowStart : Int64)
  | store (hash : List UInt8) (payloadLen : Nat) (stored : List UInt8)
  | index (market : MarketId) (windowStart firstOpenMs lastOpenMs : Int64) (barCount : Nat)
      (hash : List UInt8)
  | unindex (market : MarketId) (windowStart : Int64)
  | unmark (id : Nat)

/-- What the driver hands over for a statement: how many rows it changed, or the rows that it
returned, each of which may not read as its type. -/
def Statement.Answer : Statement → Type
  | .upsert _ _ => List (Except DriverError Int64)
  | .lockMark _ _ => Option (Except DriverError Nat)
  | _ => Nat

abbrev WriteWork (T : Type) := Work Statement Statement.Answer DriverError T

/-- `unique_violation`. -/
def uniqueViolation : String := "23505"

/-- Whether the run was created, or was there. -/
def createWork (state : BotRunState) (stateJson : String) (identity : Storage.IdentityColumns)
    (identityAtMs : Int64) : WriteWork Bool :=
  .runs (.create state stateJson identity identityAtMs) fun inserted =>
    match inserted with
    | .ok _ => .ret (.ok true)
    | .error error =>
      if error.code = some uniqueViolation then .ret (.ok false) else .ret (.error error)

/-- How many rows of the run were saved. -/
def saveWork (state : BotRunState) (stateJson : String) : WriteWork Nat :=
  .runs (.save state stateJson) fun updated => .ret updated

def appendEventWork (runId : String) (order : ExchangeOrder) (rawJson : String) : WriteWork Unit :=
  .runs (.appendEvent runId order rawJson) fun inserted => .ret (inserted.map fun _ => ())

def appendTradeWork (runId : String) (trade : ClosedTrade) : WriteWork Unit :=
  .runs (.appendTrade runId trade) fun inserted => .ret (inserted.map fun _ => ())

/-- A transaction that the work opens, and goes on in. -/
def inTransaction {T : Type} (body : WriteWork T) : WriteWork T :=
  .opens fun started =>
    match started with
    | .ok () => body
    | .error error => .ret (.error error)

/-- A statement of an open transaction, which is dropped where the statement fails. -/
def inside {T : Type} (q : Statement) (next : q.Answer → WriteWork T) : WriteWork T :=
  .runs q fun heard =>
    match heard with
    | .ok answer => next answer
    | .error error => .drops (.error error)

def commit {T : Type} (t : T) : WriteWork T := .commits fun ended => .ret (ended.map fun _ => t)

/-- Why an upsert's rows leave no windows to mark: one does not read, or is none of the batch. -/
inductive RowError
  | unread (error : DriverError)
  | stray (openTimeMs : Int64)

namespace Batch

/-- The windows of the rows that an upsert wrote, beside `windows`. -/
def windowsOf (b : Batch) (windows : Table Int64.toInt) :
    List (Except DriverError Int64) → Except RowError (Table Int64.toInt)
  | [] => .ok windows
  | .error error :: _ => .error (.unread error)
  | .ok openTimeMs :: rest =>
    match b.windowOf openTimeMs with
    | some window => b.windowsOf (windows.put window) rest
    | none => .error (.stray openTimeMs)

end Batch

/-- The upsert of a batch and the marks of its windows, or when a row of none of them opens. -/
def upsertWork (market : MarketId) (batch : Batch) : WriteWork (Except Int64 Unit) :=
  inTransaction <| inside (.upsert market (batch.rows.rows.map (·.candle))) fun written =>
    match batch.windowsOf batch.forced written with
    | .error (.unread error) => .drops (.error error)
    | .error (.stray openTimeMs) => .drops (.ok (.error openTimeMs))
    | .ok windows =>
      if windows.rows.isEmpty then commit (.ok ())
      else inside (.mark market windows.rows) fun _ => commit (.ok ())

def unmarkWork (id : Nat) : WriteWork Written := inside (.unmark id) fun _ => commit .done

/-- What a refresh writes back for a window whose mark is still the one it read. -/
def packedWork (market : MarketId) (windowStart : Int64) (id : Nat) : Packed → WriteWork Written
  | .write hash payloadLen stored firstOpenMs lastOpenMs barCount =>
    inside (.store hash payloadLen stored) fun _ =>
      inside (.index market windowStart firstOpenMs lastOpenMs barCount hash) fun _ =>
        unmarkWork id
  | .keep => unmarkWork id
  | .clear => inside (.unindex market windowStart) fun _ => unmarkWork id

def writeWindowWork (market : MarketId) (windowStart : Int64) (id : Nat) (packed : Packed) :
    WriteWork Written :=
  inTransaction <| inside (.lockMark market windowStart) fun found =>
    match found with
    -- anything but the revision read ends here, and the transaction rolls back as it drops
    | none => .drops (.ok .elsewhere)
    | some (.error error) => .drops (.error error)
    | some (.ok current) =>
      if current ≠ id then .drops (.ok .marked) else packedWork market windowStart id packed

/-- A write call on the store. A state or an order comes with what it is printed as. -/
inductive WriteCall
  | createRun (state : BotRunState) (identity : RunIdentity) (stateJson : Except String String)
      (nowUtcMs : Int64)
  | saveRunState (state : BotRunState) (stateJson : Except String String)
  | appendOrderEvent (runId : String) (order : ExchangeOrder) (rawJson : Except String String)
  | appendClosedTrade (runId : String) (trade : ClosedTrade)
  | upsertCandles (market : MarketId) (candles : List Candle)
  | writeWindow (market : MarketId) (windowStart : Int64) (id : Nat) (packed : Packed)

namespace WriteCall

/-- What a call answers its caller. -/
def Reply : WriteCall → Type
  | .upsertCandles _ _ => Nat
  | .writeWindow _ _ _ _ => Written
  | _ => Unit

/-- What a call does: it answers at once, or goes through the bridge. -/
inductive Plan (R : Type)
  | answers (answer : Except CallError R)
  | executes (work : WriteWork (Except CallError R))

/-- The refusal of a state or an order that does not print. -/
def printed {R : Type} (text : Except String String) (next : String → Plan R) : Plan R :=
  match text with
  | .ok text => next text
  | .error error => .answers (.error (.other error))

/-- How many candles an upsert was given, or its refusal of a stray row. -/
def upserted (candles : List Candle) : Except Int64 Unit → Except CallError Nat
  | .ok () => .ok candles.length
  | .error openTimeMs => .error (.storage (.invalidArgument
    s!"the database wrote a candle at {openTimeMs}, which the batch does not hold"))

def plan : (call : WriteCall) → Plan call.Reply
  | .createRun state identity stateJson nowUtcMs =>
    if identity.source = .legacy then
      .answers (.error (.storage (.invalidArgument
        (s!"run {state.runId} cannot be created as a legacy run; only a " ++
          "migration marks runs legacy"))))
    else printed stateJson fun json =>
      .executes ((createWork state json (Storage.identityColumns identity) nowUtcMs).map fun created =>
        if created then .ok () else .error (.storage (RunTable.alreadyExists state.runId)))
  | .saveRunState state stateJson => printed stateJson fun json =>
      .executes ((saveWork state json).map fun updated =>
        if updated = 0 then .error (.storage (RunTable.neverCreated state.runId)) else .ok ())
  | .appendOrderEvent runId order rawJson => printed rawJson fun json =>
      .executes ((appendEventWork runId order json).map .ok)
  | .appendClosedTrade runId trade => .executes ((appendTradeWork runId trade).map .ok)
  | .upsertCandles market candles =>
    if candles.isEmpty then .answers (.ok (0 : Nat))
    else
      match Batch.of market.interval candles with
      | .error error => .answers (.error (.storage error))
      | .ok batch => .executes ((upsertWork market batch).map (upserted candles))
  | .writeWindow market windowStart id packed =>
    .executes ((writeWindowWork market windowStart id packed).map .ok)

end WriteCall

end QuantForge.Postgres
