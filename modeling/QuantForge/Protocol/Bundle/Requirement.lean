import QuantForge.Protocol.Bundle.Package
import QuantForge.Model.TextParts
import Mathlib.Algebra.Group.Nat.Defs

namespace QuantForge.Bundle

structure EngineVersion where
  major : UInt32
  minor : UInt32
  patch : UInt32
  deriving DecidableEq

structure PythonVersion where
  major : UInt32
  minor : UInt32
  deriving DecidableEq

/-- Rust's `u32` from a digit string. -/
def parseU32 (digits : List Char) : Option UInt32 :=
  let value := digits.foldl (fun n c => n * 10 + (c.toNat - 48)) 0
  if value < 2 ^ 32 then some (UInt32.ofNat value) else none

/-- Exactly `count` numbers without leading zeros, separated by `.`. -/
def numbers (text : String) (count : Nat) : Option (List UInt32) :=
  let parts := text.toList.splitOn '.'
  if parts.length ≠ count then none
  else
    parts.mapM fun part =>
      let bytes := Bytes.utf8 (String.ofList part)
      if numberEnd bytes 0 = some bytes.length then parseU32 part else none

def EngineVersion.parse (text : String) : Except ProtocolError EngineVersion :=
  match numbers text 3 with
  | some [major, minor, patch] => .ok ⟨major, minor, patch⟩
  | _ => .error (.invalidEngineVersion text)

def PythonVersion.parse (text : String) : Except ProtocolError PythonVersion :=
  match numbers text 2 with
  | some [major, minor] => .ok ⟨major, minor⟩
  | _ => .error (.invalidPythonVersion text)

def EngineVersion.show_ (v : EngineVersion) : String :=
  toString v.major.toNat ++ "." ++ toString v.minor.toNat ++ "." ++ toString v.patch.toNat

/-- Versions compare by their numbers, the major one first. -/
def EngineVersion.lt (a b : EngineVersion) : Bool :=
  a.major < b.major || (a.major == b.major &&
    (a.minor < b.minor || (a.minor == b.minor && a.patch < b.patch)))

inductive Operator
  | atLeast
  | above
  | atMost
  | below
  | exactly
  deriving DecidableEq

namespace Operator

def symbol : Operator → String
  | atLeast => ">="
  | above => ">"
  | atMost => "<="
  | below => "<"
  | exactly => "=="

/-- Longest first, so that `>=` is not read as `>`. -/
def all : List (Operator × String) :=
  [(atLeast, ">="), (atMost, "<="), (exactly, "=="), (above, ">"), (below, "<")]

def admits (operator : Operator) (version bound : EngineVersion) : Bool :=
  match operator with
  | atLeast => !version.lt bound
  | above => bound.lt version
  | atMost => !bound.lt version
  | below => version.lt bound
  | exactly => version == bound

end Operator

/-- The engine versions a bundle runs on. -/
structure EngineRequirement where
  comparators : List (Operator × EngineVersion)
  deriving DecidableEq

namespace EngineRequirement

/-- Whether `version` meets every comparator. -/
def matches_ (r : EngineRequirement) (version : EngineVersion) : Bool :=
  r.comparators.all fun (operator, bound) => operator.admits version bound

def isSpace (c : Char) : Bool := c == ' '

/-- One comparator of `text`, or the reason it is none. -/
def comparator (part : List Char) : Except Message (Operator × EngineVersion) :=
  let comparator := Text.trim isSpace part
  if comparator.isEmpty then .error (say "a comma leaves an empty comparator")
  else
    let found := Operator.all.findSome? fun (operator, symbol) =>
      (Text.stripPrefix symbol.toList comparator).map fun rest =>
        (operator, Text.trimStart isSpace rest)
    match found with
    | none =>
      .error [.quoted (String.ofList comparator),
        .text " starts with no operator; use >=, >, <=, <, or =="]
    | some (operator, rest) =>
      match EngineVersion.parse (String.ofList rest) with
      | .ok bound => .ok (operator, bound)
      | .error _ =>
        .error [.quoted (String.ofList rest), .text " is not a MAJOR.MINOR.PATCH version"]

def parse (text : String) : Except ProtocolError EngineRequirement :=
  if (Text.trim isSpace text.toList).isEmpty then
    .error (.invalidEngineRequirement text (say "it is empty"))
  else
    match (text.toList.splitOn ',').mapM comparator with
    | .ok comparators => .ok ⟨comparators⟩
    | .error reason => .error (.invalidEngineRequirement text reason)

def show_ (r : EngineRequirement) : String :=
  ", ".intercalate (r.comparators.map fun (operator, bound) => operator.symbol ++ bound.show_)

end EngineRequirement

end QuantForge.Bundle
