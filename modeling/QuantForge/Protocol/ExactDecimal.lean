import QuantForge.Model.ParseDecimal

namespace QuantForge

/-- A protocol value that cannot be read. -/
inductive ProtocolError
  | invalidDecimal (input reason : String)
  deriving DecidableEq

/-- A price, quantity, or amount: an exact decimal, sent as a JSON string of
its digits. -/
structure ExactDecimal where
  get : Decimal
  deriving DecidableEq

namespace ExactDecimal

def toText (d : ExactDecimal) : String := d.get.toText

/-- `-?(0|[1-9][0-9]*)(\.[0-9]+)?`, with no minus sign on zero. -/
def isExactForm (text : String) : Bool :=
  let sign := Decimal.signOf text.toList
  let point := Decimal.pointOf sign.2
  let wellFormed := Decimal.areDigits point.1 &&
    (point.1 == ['0'] || point.1.head? != some '0') && point.2.all Decimal.areDigits
  let zero := sign.2.all fun c => c == '0' || c == '.'
  wellFormed && !(sign.1 && zero)

/-- Reads the wire text, without the quotes. -/
def fromStr [DecimalParser] (text : String) : Except ProtocolError ExactDecimal :=
  if isExactForm text then
    match DecimalParser.fromStrExact text with
    | some value => .ok ⟨value⟩
    | none => .error (.invalidDecimal text "a decimal cannot hold it without rounding")
  else .error (.invalidDecimal text
    ("expected digits with an optional fraction, such as \"67012.34\", " ++ "and no sign on zero"))

end ExactDecimal

end QuantForge
