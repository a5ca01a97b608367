import QuantForge.Math.Split
import QuantForge.Protocol.Bundle.Problems

namespace QuantForge.Bundle

/-- The longest path, in bytes: what a tar header's name field holds. -/
def maxPathBytes : Nat := 100

/-- The names Windows reserves for devices, whatever their extension. -/
def reservedNames : List String :=
  ["CON", "PRN", "AUX", "NUL", "COM1", "COM2", "COM3", "COM4", "COM5", "COM6", "COM7", "COM8",
    "COM9", "LPT1", "LPT2", "LPT3", "LPT4", "LPT5", "LPT6", "LPT7", "LPT8", "LPT9"]

/-- The extensions a bundle's files may have. -/
def allowedExtensions : List String := ["py", "toml", "json", "txt"]

namespace Ascii

def isLower (c : Char) : Bool := 'a' ≤ c && c ≤ 'z'

def isUpper (c : Char) : Bool := 'A' ≤ c && c ≤ 'Z'

def isDigit (c : Char) : Bool := '0' ≤ c && c ≤ '9'

def isAlphabetic (c : Char) : Bool := isLower c || isUpper c

def isAlphanumeric (c : Char) : Bool := isAlphabetic c || isDigit c

def toLower (c : Char) : Char := if isUpper c then Char.ofNat (c.toNat + 32) else c

def toUpper (c : Char) : Char := if isLower c then Char.ofNat (c.toNat - 32) else c

end Ascii

/-- A path's components, outermost first. -/
def components (path : String) : List (List Char) := path.toList.splitOn '/'

def componentChar (c : Char) : Bool := Ascii.isAlphanumeric c || c == '.' || c == '_' || c == '-'

def componentFault (component : List Char) : Option Message :=
  let shown := Piece.quoted (String.ofList component)
  match component with
  | [] => some (say "it has an empty component, as in a//b or a trailing /")
  | first :: _ =>
    if component = ['.'] ∨ component = ['.', '.'] then
      some (say "it has a . or .. component; a path stays inside the bundle")
    else if !(Ascii.isAlphanumeric first || first == '_') then
      some [shown, .text " starts with ", .quotedChar first,
        .text "; a component starts with a letter, a digit, or _"]
    else
      match component.find? fun c => !componentChar c with
      | some c =>
        some [shown, .text " holds ", .quotedChar c,
          .text "; a component holds only letters, digits, ., _, and -"]
      | none =>
        if component.getLast? = some '.' then
          some [shown, .text " ends in ., which Windows drops from file names"]
        else if component = "__pycache__".toList then
          some (say "__pycache__ is Python's cache, never part of a bundle")
        else
          let stem := component.takeWhile (· != '.')
          if reservedNames.any fun name => name.toList == stem.map Ascii.toUpper then
            some [shown, .text " is named ", .text (String.ofList (stem.map Ascii.toUpper)),
              .text ", which Windows reserves for a device"]
          else none

/-- Why `path` breaks a path rule, or `none` when it keeps them all. -/
def pathFault (path : String) : Option Message :=
  if path.isEmpty then some (say "it is empty")
  else if !Bytes.isAscii path then some (say "it must be ASCII")
  else if maxPathBytes < (Bytes.utf8 path).length then
    some [.text "it is ", number (Bytes.utf8 path).length, .text " bytes, over the ",
      number maxPathBytes, .text " a tar header holds"]
  else if path.toList.head? = some '/' then
    some (say "it must be relative to the bundle, without a leading /")
  else if '\\' ∈ path.toList then
    some (say "separate directories with /, not \\")
  else firstFault componentFault (components path)

/-- The text after a component's last `.`, if it has one. -/
def extension (component : List Char) : Option (List Char) :=
  if '.' ∈ component then some (component.reverse.takeWhile (· != '.')).reverse else none

def extensionAllowed (path : String) : Bool :=
  match extension ((components path).getLastD []) with
  | none => false
  | some found => allowedExtensions.any fun allowed => allowed.toList == found

/-- Where a file sits in a bundle: text that keeps the path rules. -/
structure BundlePath where
  text : String
  keeps : pathFault text = none
  extends_ : extensionAllowed text = true
  deriving DecidableEq

namespace BundlePath

def new (path : String) : Except BundleProblem BundlePath :=
  match h : pathFault path with
  | some reason =>
    .error ⟨.pathInvalid, [.quoted path, .text " is not a bundle path: "] ++ reason⟩
  | none =>
    if he : extensionAllowed path = true then .ok ⟨path, h, he⟩
    else
      .error ⟨.extensionNotAllowed, [.quoted path, .text
        (" cannot be in a bundle: a bundle holds only .py, .toml, .json, and " ++
          ".txt files, so leave it out or convert it")]⟩

theorem new_ok {path : String} {p : BundlePath} : new path = .ok p ↔ p.text = path := by
  obtain ⟨text, keeps, extends_⟩ := p
  unfold new
  split
  · rename_i reason h
    simp only [reduceCtorEq, false_iff]
    rintro rfl
    rw [keeps] at h
    cases h
  · split_ifs with he
    · simp only [Except.ok.injEq, mk.injEq]
      exact eq_comm
    · simp only [false_iff]
      rintro rfl
      exact he extends_

end BundlePath

/-- A file in a bundle: its path and its bytes, exactly as they are hashed. -/
structure BundleFile where
  path : BundlePath
  contents : List UInt8
  deriving DecidableEq

theorem componentFault_chars {component : List Char} (h : componentFault component = none) :
    component ≠ [] ∧ ∀ c ∈ component, componentChar c = true := by
  cases component with
  | nil => simp [componentFault] at h
  | cons first rest =>
    refine ⟨by simp, ?_⟩
    simp only [componentFault] at h
    cases hfind : (first :: rest).find? fun c => !componentChar c with
    | some c =>
      simp only [hfind] at h
      split_ifs at h
    | none => simpa using hfind

theorem pathFault_none {path : String} (h : pathFault path = none) :
    path.toList ≠ [] ∧ Bytes.isAscii path = true ∧ (Bytes.utf8 path).length ≤ maxPathBytes ∧
      ∀ component ∈ components path, componentFault component = none := by
  unfold pathFault at h
  split_ifs at h with hempty hascii hlong hslash hback
  refine ⟨?_, by simpa using hascii, by omega, firstFault_none.mp h⟩
  intro hnil
  exact hempty (by simpa using hnil)

theorem path_chars {path : String} (h : pathFault path = none) :
    ∀ c ∈ path.toList, c = '/' ∨ componentChar c = true := by
  obtain ⟨-, -, -, hcomponents⟩ := pathFault_none h
  intro c hc
  rcases Split.mem_splitOn (x := '/') hc with rfl | ⟨component, hcomponent, hc⟩
  · exact .inl rfl
  · exact .inr ((componentFault_chars (hcomponents component hcomponent)).2 c hc)

end QuantForge.Bundle
