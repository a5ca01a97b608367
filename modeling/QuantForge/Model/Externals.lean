import Mathlib.Tactic.Common
import QuantForge.Model.DecimalText

namespace QuantForge

/-- SHA-256, as the hash crate computes it. -/
class Sha256 where
  digest : List UInt8 → List UInt8

/-- `rust_decimal`'s exact parser, without what it says of a refusal. -/
class DecimalParser where
  fromStrExact : String → Option Decimal

/-- The parser reads back what `to_string` writes. -/
class ExactParser [DecimalParser] : Prop where
  reads_back : ∀ d : Decimal, d.canonical = d → DecimalParser.fromStrExact d.toText = some d

end QuantForge
