import Mathlib.Data.List.Basic
import Mathlib.Tactic.Common

namespace QuantForge

/-- The model's refusals, with what each one names. -/
inductive ModelError
  | invalidSymbol (value : String)
  | invalidDecimal (value : String)
  | invalidAsset (value : String)
  | assetMismatch (left right : String)
  | invalidAmount (what value rule : String)
  | unitMismatch (subject expected found : String)
  | invalidIdentifier (what value rule : String)
  | unsupportedInstrument (instrument reason : String)
  | invalidTransition (machine source target : String)
  | missingEvidence (machine target evidence : String)
  | unsupportedFormat (record : String) (found expected : Nat)
  | candleColumnLength (column : String) (found expected : Nat)
  | invalidInterval (value : String)
  | identityMismatch (subject recorded current : String)
  | unverifiedIdentity
  deriving DecidableEq

namespace Text

/-- Unicode's `White_Space` property, as Rust's `char::is_whitespace` reads it. -/
def isWhitespace (c : Char) : Bool :=
  let n := c.toNat
  (9 ≤ n && n ≤ 13) || n == 32 || n == 0x85 || n == 0xA0 || n == 0x1680 ||
    (0x2000 ≤ n && n ≤ 0x200A) || n == 0x2028 || n == 0x2029 || n == 0x202F ||
    n == 0x205F || n == 0x3000

/-- Unicode's `Cc` category, as Rust's `char::is_control` reads it. -/
def isControl (c : Char) : Bool :=
  c.toNat < 32 || (127 ≤ c.toNat && c.toNat < 160)

def isAsciiLowercase (c : Char) : Bool := 'a' ≤ c && c ≤ 'z'

def isAsciiDigit (c : Char) : Bool := '0' ≤ c && c ≤ '9'

def isAsciiAlphanumeric (c : Char) : Bool :=
  isAsciiDigit c || isAsciiLowercase c || ('A' ≤ c && c ≤ 'Z')

def eqIgnoreAsciiCase (a b : String) : Bool :=
  a.toList.map Char.toLower == b.toList.map Char.toLower

/-- How a character stands inside a text that Rust's `{:?}` prints. One that is not
printable outside ASCII is kept as it is. -/
def debugChar (c : Char) : List Char :=
  if c = '"' || c = '\\' then ['\\', c]
  else if c = '\n' then ['\\', 'n']
  else if c = '\r' then ['\\', 'r']
  else if c = '\t' then ['\\', 't']
  else if c.toNat = 0 then ['\\', '0']
  else if isControl c then
    ['\\', 'u', Char.ofNat 0x7b] ++ Nat.toDigits 16 c.toNat ++ [Char.ofNat 0x7d]
  else [c]

/-- A text as `{:?}` prints it. -/
def debug (text : String) : String :=
  "\"" ++ String.ofList (text.toList.flatMap debugChar) ++ "\""

example : debug "a\"b\\\n" = "\"a\\\"b\\\\\\n\"" := by decide

/-- Whether identifier text is non-empty, at most `max` characters, and free
of spaces and control characters. -/
def plainText (max : Nat) (value : String) : Bool :=
  !value.isEmpty && value.toList.length ≤ max &&
    !value.toList.any (fun c => isWhitespace c || isControl c)

end Text

/-- A text identifier, which holds only text its rule accepts. -/
structure TextId (valid : String → Bool) where
  text : String
  accepted : valid text = true
  deriving DecidableEq

namespace TextId

def new {valid : String → Bool} (what rule value : String) :
    Except ModelError (TextId valid) :=
  if h : valid value = true then .ok ⟨value, h⟩
  else .error (.invalidIdentifier what value rule)

end TextId

/-- Whether `text` is an asset code as it is kept: upper-case, not empty,
without spaces or control characters. -/
def assetCode (text : String) : Bool :=
  !text.isEmpty && text.toList.all fun c =>
    !Text.isWhitespace c && !Text.isControl c && !Text.isAsciiLowercase c

structure Asset where
  code : String
  coded : assetCode code = true
  deriving DecidableEq

def Asset.usdt : Asset := ⟨"USDT", by decide⟩

/-- Whether `text` is a symbol as it is kept: upper-case, not empty, without spaces around it. -/
def symbolName (text : String) : Bool :=
  !text.isEmpty && !text.toList.head?.any Text.isWhitespace &&
    !text.toList.getLast?.any Text.isWhitespace && text.toList.all fun c => !Text.isAsciiLowercase c

structure Symbol where
  name : String
  named : symbolName name = true
  deriving DecidableEq

def Symbol.btcUsdt : Symbol := ⟨"BTCUSDT", by decide⟩

end QuantForge
