import QuantForge.Protocol.Bundle.Errors
import QuantForge.Protocol.Bundle.Path
import QuantForge.Model.TextParts

namespace QuantForge.Bundle

/-- Python's hard keywords, which cannot name a module or a class. -/
def pythonKeywords : List String :=
  ["False", "None", "True", "and", "as", "assert", "async", "await", "break", "class", "continue",
    "def", "del", "elif", "else", "except", "finally", "for", "from", "global", "if", "import",
    "in", "is", "lambda", "nonlocal", "not", "or", "pass", "raise", "return", "try", "while",
    "with", "yield"]

/-- The strategy a bundle runs: a file of the bundle, the module the worker
imports, and the class in it. -/
structure Entry where
  file : BundlePath
  module_ : String
  class_ : String
  deriving DecidableEq

def identifierStart (c : Char) : Bool := Ascii.isAlphabetic c || c == '_'

def identifierChar (c : Char) : Bool := Ascii.isAlphanumeric c || c == '_'

/-- Why a name is not an ASCII Python identifier, or `none` when it is one. -/
def identifierFault (name : List Char) : Option Message :=
  let shown := Piece.quoted (String.ofList name)
  if !name.head?.any identifierStart || !name.all identifierChar then
    some [shown, .text
      " is not a Python identifier: letters, digits, and _, not starting with a digit"]
  else if pythonKeywords.any fun keyword => keyword.toList == name then
    some [shown, .text " is a Python keyword"]
  else none

def pySuffix : List Char := ".py".toList

def initName : List Char := "__init__".toList

/-- The parts of the module that a stem, a Python file's path without `.py`,
is: a package's `__init__` names the package itself. -/
def moduleParts (stem : List Char) : List (List Char) :=
  let parts := stem.splitOn '/'
  if parts.getLast? = some initName then parts.dropLast else parts

def Entry.parse (text : String) : Except ProtocolError Entry :=
  let refuse (reason : Message) : Except ProtocolError Entry := .error (.invalidEntry text reason)
  match Text.splitOnce ':' text.toList with
  | none => refuse (say "it must name a file and a class, as in \"strategy.py:MyStrategy\"")
  | some (file, class_) =>
    match BundlePath.new (String.ofList file) with
    | .error problem => refuse problem.message
    | .ok file =>
      match Text.stripSuffix pySuffix file.text.toList with
      | none =>
        refuse [.quoted file.text, .text " is not a Python file; the entry names a .py file"]
      | some stem =>
        let parts := moduleParts stem
        if parts.isEmpty then
          refuse (say "a root __init__.py is not a module; put the class in a named module")
        else
          match parts.find? fun part => (identifierFault part).isSome with
          | some part =>
            refuse ([.quoted file.text, .text " cannot be imported: "] ++
              (identifierFault part).getD [])
          | none =>
            match identifierFault class_ with
            | some fault => refuse ([.text "the class "] ++ fault)
            | none => .ok ⟨file, String.ofList (Text.join ['.'] parts), String.ofList class_⟩

/-- What an accepted entry says of its file and module. -/
structure Entry.Names (e : Entry) (stem : List Char) : Prop where
  file_eq : e.file.text.toList = stem ++ pySuffix
  module_eq : e.module_.toList = Text.join ['.'] (moduleParts stem)
  parts_ne : moduleParts stem ≠ []
  parts_ok : ∀ part ∈ moduleParts stem, identifierFault part = none

theorem Entry.parse_ok {text : String} {e : Entry} (h : Entry.parse text = .ok e) :
    ∃ stem, e.Names stem := by
  simp only [Entry.parse] at h
  cases hsplit : Text.splitOnce ':' text.toList with
  | none => simp [hsplit] at h
  | some pair =>
    obtain ⟨file, class_⟩ := pair
    simp only [hsplit] at h
    cases hpath : BundlePath.new (String.ofList file) with
    | error problem => simp [hpath] at h
    | ok path =>
      simp only [hpath] at h
      cases hstem : Text.stripSuffix pySuffix path.text.toList with
      | none => simp [hstem] at h
      | some stem =>
        simp only [hstem] at h
        by_cases hempty : (moduleParts stem).isEmpty = true
        · simp [hempty] at h
        rw [if_neg hempty] at h
        cases hfind : (moduleParts stem).find? fun part => (identifierFault part).isSome with
        | some part => simp [hfind] at h
        | none =>
          simp only [hfind] at h
          cases hclass : identifierFault class_ with
          | some fault => simp [hclass] at h
          | none =>
            simp only [hclass, Except.ok.injEq] at h
            subst h
            refine ⟨stem, Text.stripSuffix_some.mp hstem, by simp, by simpa using hempty, ?_⟩
            intro part hp
            have hnone := List.find?_eq_none.mp hfind part hp
            simpa using hnone

end QuantForge.Bundle
