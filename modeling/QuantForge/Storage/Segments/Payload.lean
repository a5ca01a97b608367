import QuantForge.Framework.Reader
import QuantForge.Math.LittleEndian
import QuantForge.Model.Candle
import QuantForge.Storage.Segments.ExactText

namespace QuantForge.Segments

/-- The segment format this build writes and reads. -/
def format : UInt32 := 1

/-- How many bars of the interval a window spans, and so the most candles a
segment holds. -/
def windowBars : Nat := 1440

/-- The largest payload: the header, then per candle two times, a trade count
and its flag, and five decimals with their lengths. -/
def maxPayloadBytes : Nat := 16 + windowBars * (8 + 8 + 8 + 1 + 5 * (1 + maxDecimalLen))

/-- Why candles cannot be packed, or bytes are not a segment. A refused
decimal's text is its bytes. -/
inductive SegmentError
  | barCount (count : Nat)
  | outOfOrder (previousMs openTimeMs : Int64)
  | invalidDecimal (column : String) (openTimeMs : Int64) (text : List UInt8)
  | malformed (reason : String)
  | unsupportedFormat (format : UInt32)
  | notOneFrame
  | tooLarge
  | zstd
  | hashMismatch (expected found : List UInt8)
  deriving DecidableEq

def magic : List UInt8 := Bytes.utf8 "QFSEGMNT"

/-- The first open time that does not rise. -/
def outOfOrder : List Int64 → Option SegmentError
  | previous :: next :: rest =>
    if next ≤ previous then some (.outOfOrder previous next) else outOfOrder (next :: rest)
  | _ => none

def checkOrder (times : List Int64) : Except SegmentError Unit :=
  match outOfOrder times with
  | some fault => .error fault
  | none => .ok ()

def flag (trades : Option UInt64) : UInt8 := if trades.isSome then 1 else 0

def textLength (text : String) : UInt8 := UInt8.ofNat (Bytes.utf8 text).length

/-- The header and the integer columns. -/
def head {α : Type} (candles : List (CandleOf α)) : List UInt8 :=
  magic ++ LittleEndian.u32 format ++ LittleEndian.u32 (UInt32.ofNat candles.length) ++
    candles.flatMap (fun c => LittleEndian.i64 c.openTimeMs) ++
    candles.flatMap (fun c => LittleEndian.i64 c.closeTimeMs) ++
    candles.flatMap (fun c => LittleEndian.u64 (c.trades.getD 0)) ++
    candles.map fun c => flag c.trades

/-- One decimal column: each text's length, then the texts. -/
def texts (column : List String) : List UInt8 :=
  column.map textLength ++ column.flatMap Bytes.utf8

/-- The bytes of candles whose decimals are exact text. -/
def layout (candles : List TextCandle) : List UInt8 :=
  head candles ++ texts (candles.map (·.open_)) ++ texts (candles.map (·.high)) ++
    texts (candles.map (·.low)) ++ texts (candles.map (·.close)) ++ texts (candles.map (·.volume))

/-- The trade count behind a flag. -/
def tradesOf (known : UInt8) (trades : UInt64) : Except SegmentError (Option UInt64) :=
  if known = 1 then .ok (some trades)
  else if known = 0 then
    if trades = 0 then .ok none
    else .error (.malformed "a trade count is set where it is marked unknown")
  else .error (.malformed "a trade count's flag is neither 0 nor 1")

def endsEarly : SegmentError := .malformed "it ends early"

def u32 : Reader SegmentError UInt32 := do
  let word ← Reader.take endsEarly 4
  return LittleEndian.readU32 word

/-- The magic, the format and the candle count, which it answers. -/
def header : Reader SegmentError UInt32 := do
  let found ← Reader.take endsEarly magic.length
  let _ ← Reader.ensure (found == magic) (.malformed "it does not start with QFSEGMNT")
  let version ← u32
  let _ ← Reader.ensure (version == format) (.unsupportedFormat version)
  let count ← u32
  let _ ← Reader.ensure (1 ≤ count.toNat && count.toNat ≤ windowBars) (.barCount count.toNat)
  return count

/-- The open times, which rise. -/
def openTimes (count : Nat) : Reader SegmentError (List Int64) := do
  let times ← Reader.words endsEarly 8 count LittleEndian.readI64
  let _ ← Reader.lift (checkOrder times)
  return times

/-- The trade counts and their flags. -/
def tradeColumn (count : Nat) : Reader SegmentError (List (Option UInt64)) := do
  let counts ← Reader.words endsEarly 8 count LittleEndian.readU64
  let flags ← Reader.take endsEarly count
  Reader.lift ((flags.zip counts).mapM fun (known, trades) => tradesOf known trades)

section

variable [DecimalParser]

/-- A text that is a decimal in its exact form. -/
def checkText (column : String) (openTimeMs : Int64) (text : String) :
    Except SegmentError String :=
  if (Bytes.utf8 text).length ≤ 255 ∧ isExact text = true then .ok text
  else .error (.invalidDecimal column openTimeMs (Bytes.utf8 text))

/-- One decimal column as it is written. -/
def encodeColumn (column : String) (field : TextCandle → String) (candles : List TextCandle) :
    Except SegmentError (List UInt8) := do
  let checked ← candles.mapM fun c => checkText column c.openTimeMs (field c)
  return texts checked

/-- `encode` over decimals that are already text. Text that is not a decimal
in its exact form is refused, not corrected. -/
def encodeText (candles : List TextCandle) : Except SegmentError (List UInt8) :=
  if candles.length < 1 ∨ windowBars < candles.length then .error (.barCount candles.length)
  else
    match outOfOrder (candles.map (·.openTimeMs)) with
    | some fault => .error fault
    | none => do
      let opens ← encodeColumn "open" (·.open_) candles
      let highs ← encodeColumn "high" (·.high) candles
      let lows ← encodeColumn "low" (·.low) candles
      let closes ← encodeColumn "close" (·.close) candles
      let volumes ← encodeColumn "volume" (·.volume) candles
      return head candles ++ opens ++ highs ++ lows ++ closes ++ volumes

/-- The payload of candles with rising open times. Each decimal is written at
its own scale, and a negative zero as zero. -/
def encode (candles : List Candle) : Except SegmentError (List UInt8) :=
  encodeText (candles.map fun c => c.map written)

/-- One decimal of a column, from its length. -/
def decimal (column : String) (length : UInt8) (openTimeMs : Int64) :
    Reader SegmentError Decimal := do
  let bytes ← Reader.take endsEarly length.toNat
  let refused := SegmentError.invalidDecimal column openTimeMs bytes
  Reader.lift <|
    match (Bytes.fromUtf8 bytes).filter isExact with
    | none => .error refused
    | some text =>
      match DecimalParser.fromStrExact text with
      | none => .error refused
      | some value => .ok value

/-- One decimal column. -/
def decimals (column : String) (count : Nat) (openTimes : List Int64) :
    Reader SegmentError (List Decimal) := do
  let lengths ← Reader.take endsEarly count
  (lengths.zip openTimes).mapM fun (length, openTimeMs) => decimal column length openTimeMs

/-- The columns of a payload, after its header. -/
def columns : Reader SegmentError CandleColumns := do
  let count ← header
  let openTimeMs ← openTimes count.toNat
  let closeTimeMs ← Reader.words endsEarly 8 count.toNat LittleEndian.readI64
  let trades ← tradeColumn count.toNat
  let open_ ← decimals "open" count.toNat openTimeMs
  let high ← decimals "high" count.toNat openTimeMs
  let low ← decimals "low" count.toNat openTimeMs
  let close ← decimals "close" count.toNat openTimeMs
  let volume ← decimals "volume" count.toNat openTimeMs
  let _ ← Reader.finish (.malformed "bytes follow the last column")
  return ⟨openTimeMs, closeTimeMs, open_, high, low, close, volume, trades⟩

/-- The candles of a payload. Bytes that `encode` would not have written are
refused. -/
def decode (payload : List UInt8) : Except SegmentError (List Candle) :=
  match columns.run payload with
  | .error fault => .error fault
  | .ok (found, _) =>
    match CandleBatch.fromColumns found with
    | .error _ => .error (.malformed "its columns differ in length")
    | .ok batch => .ok batch.toCandles

end

/-- The zstd library: the length of the one frame bytes start with, the
content size a frame records, one frame around a payload, and a frame's
payload, which is refused above a size. -/
class Zstd where
  frameLen : List UInt8 → Option Nat
  contentSize : List UInt8 → Option Nat
  compress : List UInt8 → Option (List UInt8)
  decompress : List UInt8 → Nat → Option (List UInt8)

def compress [Zstd] (payload : List UInt8) : Except SegmentError (List UInt8) :=
  match Zstd.compress payload with
  | some bytes => .ok bytes
  | none => .error .zstd

/-- The payload inside a segment's stored bytes. -/
def decompress [Zstd] (bytes : List UInt8) : Except SegmentError (List UInt8) :=
  match Zstd.frameLen bytes with
  | none => .error .notOneFrame
  | some frameLen =>
    if frameLen ≠ bytes.length then .error .notOneFrame
    else if (Zstd.contentSize bytes).any fun size => maxPayloadBytes < size then .error .tooLarge
    else
      match Zstd.decompress bytes maxPayloadBytes with
      | none => .error .zstd
      | some payload => .ok payload

end QuantForge.Segments
