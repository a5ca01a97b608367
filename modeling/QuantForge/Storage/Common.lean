import QuantForge.Storage.Segments.Window

namespace QuantForge

/-- A storage backend's refusals. A stored text that no decimal holds exactly
is an invalid argument too, kept apart here by its text. -/
inductive StorageError
  | invalidArgument (message : String)
  | inexactDecimal (text : String)
  | schemaUnsupported (found supported : Nat)
  | unavailable (message : String)
  | contention (message : String)
  | conflict (message : String)
  | outcomeUnknown (message : String)
  | durabilityUnmet (message : String)
  | other (source : ModelError)
  deriving DecidableEq

def StorageError.toText : StorageError → String
  | .invalidArgument message | .inexactDecimal message => s!"invalid argument: {message}"
  | .schemaUnsupported found supported =>
    s!"database schema version {found} is newer than this build supports ({supported}); use a " ++
      "newer quantforge release, and never an older one on this database"
  | .unavailable message => s!"storage unavailable: {message}"
  | .contention message => s!"storage busy: {message}"
  | .conflict message => s!"storage conflict: {message}"
  | .outcomeUnknown message =>
    s!"storage write outcome unknown: {message}; check what was written before retrying"
  | .durabilityUnmet message => s!"storage cannot keep its commits: {message}"
  | .other _ => "storage error"

/-- Which candles a caller asks for. -/
structure CandleQuery where
  startTimeMs : Option Int64
  endTimeMs : Option Int64
  limit : Option Nat

namespace CandleQuery

def between (firstOpenMs lastOpenMs : Int64) : CandleQuery :=
  ⟨some firstOpenMs, some lastOpenMs, none⟩

def admits (q : CandleQuery) (openTimeMs : Int64) : Bool :=
  q.startTimeMs.all (· ≤ openTimeMs) && q.endTimeMs.all (openTimeMs ≤ ·)

end CandleQuery

namespace Storage

/-- Reads a stored decimal with its scale, or refuses text it cannot hold
exactly. -/
def readDecimal [DecimalParser] (text : String) : Except StorageError Decimal :=
  match DecimalParser.fromStrExact text with
  | some value => .ok value
  | none => .error (.inexactDecimal text)

/-- The error for a candle whose segment window cannot be written. -/
def outOfRange (openTimeMs : Int64) : StorageError :=
  .invalidArgument (s!"candle open time {openTimeMs} lies too close to the end of the timestamp " ++
    "range to belong to a segment window")

/-- The start of the segment window holding `openTimeMs`; a candle whose
window cannot be written is refused before anything is stored. -/
def windowStart (interval : Interval) (openTimeMs : Int64) : Except StorageError Int64 :=
  match Segments.window interval openTimeMs with
  | some window => .ok window.start
  | none => .error (outOfRange openTimeMs)

theorem readDecimal_ok [DecimalParser] {text : String} {value : Decimal} :
    readDecimal text = .ok value ↔ DecimalParser.fromStrExact text = some value := by
  unfold readDecimal
  cases DecimalParser.fromStrExact text <;> simp

theorem windowStart_ok {interval : Interval} {t start : Int64} :
    windowStart interval t = .ok start ↔
      ∃ w, Segments.window interval t = some w ∧ w.start = start := by
  unfold windowStart
  cases Segments.window interval t <;> simp

end Storage

end QuantForge
