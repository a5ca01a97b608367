import QuantForge.Protocol.Bundle.Path
import Mathlib.Algebra.Group.Nat.Defs

namespace QuantForge.Bundle

/-- A TOML value. A table lists its pairs in key order, a float is its bits,
and a date or time its text. -/
inductive Toml
  | string (text : String)
  | integer (value : Int64)
  | float (bits : UInt64)
  | boolean (flag : Bool)
  | datetime (text : String)
  | array (items : List Toml)
  | table (pairs : List (String × Toml))

abbrev TomlTable := List (String × Toml)

def Toml.typeStr : Toml → String
  | string _ => "string"
  | integer _ => "integer"
  | float _ => "float"
  | boolean _ => "boolean"
  | datetime _ => "datetime"
  | array _ => "array"
  | table _ => "table"

/-- A refusal of the TOML parser: its message, and the byte where what it is
about starts. -/
structure TomlError where
  message : String
  start : Option Nat

/-- The TOML crate's parser. -/
class TomlParser where
  parse : String → Except TomlError TomlTable

/-- A binary64 whose exponent bits are not all set is finite. -/
def floatFinite (bits : UInt64) : Bool := (bits >>> 52) &&& 0x7FF != 0x7FF

def bareKey (key : String) : Bool :=
  !key.isEmpty && key.toList.all fun c => Ascii.isAlphanumeric c || c == '_' || c == '-'

/-- A key as TOML would write it in a dotted path: bare when it can be. -/
def shownKey (key : String) : Piece := if bareKey key then .text key else .quoted key

/-- A JSON value. An object lists its pairs in key order. -/
inductive Json
  | string (text : String)
  | bool (flag : Bool)
  | integer (value : Int64)
  | float (bits : UInt64)
  | array (items : List Json)
  | object (pairs : List (String × Json))

/-- A strategy's parameters, by name. -/
structure Params where
  map : List (String × Json)

namespace Params

def default : Params := ⟨[]⟩

/-- The largest integer a param may hold, so that every JSON reader reads it
exactly. -/
def maxSafeInteger : Nat := 2 ^ 53 - 1

def notJson (at_ : Message) (reason : String) : BundleProblem :=
  ⟨.paramNotJson, at_ ++ [.text " ", .text reason]⟩

mutual

/-- A value as JSON, unless JSON cannot hold it, and its problems. -/
def convert (at_ : Message) : Toml → Option Json × List BundleProblem
  | .string text => (some (.string text), [])
  | .boolean flag => (some (.bool flag), [])
  | .integer value =>
    if value.toInt.natAbs ≤ maxSafeInteger then (some (.integer value), [])
    else
      (none, [notJson at_ ("is an integer beyond 2^53 - 1, which not every JSON reader holds " ++
        "exactly; write it as a string")])
  | .float bits =>
    if floatFinite bits then (some (.float bits), [])
    else (none, [notJson at_ "is not a finite number"])
  | .datetime _ =>
    (none, [notJson at_ ("is a TOML date or time, which JSON cannot hold; " ++
      "write it as a string")])
  | .array items =>
    let found := convertItems at_ 0 items
    (some (.array found.1), found.2)
  | .table pairs =>
    let found := convertTable at_ pairs
    (some (.object found.1), found.2)

/-- An array's items from `index`, without those JSON cannot hold. -/
def convertItems (at_ : Message) (index : Nat) : List Toml → List Json × List BundleProblem
  | [] => ([], [])
  | item :: items =>
    let first := convert (at_ ++ [.text "[", number index, .text "]"]) item
    let rest := convertItems at_ (index + 1) items
    (first.1.toList ++ rest.1, first.2 ++ rest.2)

/-- A table's pairs, without those whose key is reserved or whose value JSON
cannot hold. -/
def convertTable (at_ : Message) :
    List (String × Toml) → List (String × Json) × List BundleProblem
  | [] => ([], [])
  | (key, value) :: pairs =>
    let path := at_ ++ [.text ".", shownKey key]
    let rest := convertTable at_ pairs
    if key.toList.head? = some '$' then
      (rest.1, notJson path "starts with $, which is reserved" :: rest.2)
    else
      let first := convert path value
      ((first.1.map fun json => (key, json)).toList ++ rest.1, first.2 ++ rest.2)

end

/-- The `[params]` table as JSON, with a problem for every value JSON cannot
hold. -/
def fromToml (table : TomlTable) : Params × List BundleProblem :=
  let found := convertTable (say "params") table
  (⟨found.1⟩, found.2)

end Params

end QuantForge.Bundle
