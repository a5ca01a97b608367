import QuantForge.Math.Bytes

namespace QuantForge.Bundle

/-- What kind of problem a bundle has. -/
inductive ProblemCode
  | pathInvalid
  | pathCollision
  | extensionNotAllowed
  | fileTooLarge
  | bundleTooLarge
  | tooManyFiles
  | notARegularFile
  | manifestMissing
  | manifestInvalid
  | formatUnsupported
  | entryInvalid
  | entryNotFound
  | engineInvalid
  | pythonInvalid
  | paramNotJson
  | dependencyInvalid
  | dependencyNotAllowed
  | dependencyVersionUnavailable
  | engineMismatch
  | pythonMismatch
  | archiveNotCanonical
  deriving DecidableEq

/-- A piece of a message: text as it stands, or a value in the form Rust's
formatting gives it. -/
inductive Piece
  | text (s : String)
  | quoted (s : String)
  | quotedChar (c : Char)
  | float (bits : UInt64)
  | utf8Error (bytes : List UInt8)
  deriving DecidableEq

abbrev Message := List Piece

instance : Coe String Piece := ⟨Piece.text⟩

/-- Text, which most messages are made of. -/
def say (s : String) : Message := [.text s]

def number (n : Nat) : Piece := .text (toString n)

/-- One thing wrong with a bundle: its code, and what to change. -/
structure BundleProblem where
  code : ProblemCode
  message : Message
  deriving DecidableEq

/-- The problem, or none, that checks in turn report first. -/
def firstFault {α : Type} (fault : α → Option Message) : List α → Option Message
  | [] => none
  | a :: as => (fault a).or (firstFault fault as)

theorem firstFault_none {α : Type} {fault : α → Option Message} {as : List α} :
    firstFault fault as = none ↔ ∀ a ∈ as, fault a = none := by
  induction as with
  | nil => simp [firstFault]
  | cons a as ih => simp [firstFault, ih]

end QuantForge.Bundle
