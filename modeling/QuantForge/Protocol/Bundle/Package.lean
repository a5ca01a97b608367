import QuantForge.Math.Split
import QuantForge.Protocol.Bundle.Errors
import QuantForge.Protocol.Bundle.Path

namespace QuantForge.Bundle

def edge (c : Option Char) : Bool := c.any Ascii.isAlphanumeric

/-- A name as PEP 508 allows it. -/
def isValidName (name : List Char) : Bool :=
  edge name.head? && edge name.getLast? &&
    name.all fun c => Ascii.isAlphanumeric c || c == '.' || c == '_' || c == '-'

/-- One character of a name, after what is normalized before it. -/
def normalizeChar (normalized : List Char) (c : Char) : List Char :=
  if c = '.' ∨ c = '_' ∨ c = '-' then
    if normalized.getLast? = some '-' then normalized else normalized ++ ['-']
  else normalized ++ [Ascii.toLower c]

/-- The PEP 503 form. -/
def normalize (name : List Char) : List Char := name.foldl normalizeChar []

def isNormalized (name : List Char) : Bool :=
  isValidName name && (name.all fun c => Ascii.isLower c || Ascii.isDigit c || c == '-') &&
    !(name.zip name.tail).any fun pair => pair == ('-', '-')

/-- A package's name in its normalized form. -/
structure PackageName where
  text : String
  normalized : isNormalized text.toList = true
  deriving DecidableEq

def PackageName.new (name : String) : Except ProtocolError PackageName :=
  if h : isNormalized name.toList = true then .ok ⟨name, h⟩
  else if isValidName name.toList then
    .error (.invalidPackageName name
      [.text "names are compared in their normalized form, so write it as ",
        .quoted (String.ofList (normalize name.toList))])
  else
    .error (.invalidPackageName name
      (say "expected a package name, such as \"numpy\" or \"scikit-learn\""))

def isDigitByte (byte : UInt8) : Bool := 48 ≤ byte && byte ≤ 57

/-- `0` or a digit string without a leading zero, at `start`: where it ends. -/
def numberEnd (bytes : List UInt8) (start : Nat) : Option Nat :=
  match bytes[start]? with
  | none => none
  | some byte =>
    if byte = 48 then some (start + 1)
    else if 49 ≤ byte ∧ byte ≤ 57 then
      some (start + ((bytes.drop start).takeWhile isDigitByte).length)
    else none

/-- A number starts inside the bytes, is not empty, and ends inside them. -/
theorem numberEnd_range {bytes : List UInt8} {start stop : Nat}
    (h : numberEnd bytes start = some stop) : start < stop ∧ stop ≤ bytes.length := by
  unfold numberEnd at h
  cases hb : bytes[start]? with
  | none => simp [hb] at h
  | some byte =>
    obtain ⟨hlt, hget⟩ := List.getElem?_eq_some_iff.mp hb
    simp only [hb] at h
    split_ifs at h with hzero hdigit
    · rw [Option.some.injEq] at h
      omega
    · rw [Option.some.injEq] at h
      have hcons : bytes.drop start = byte :: bytes.drop (start + 1) := by
        rw [List.drop_eq_getElem_cons hlt, hget]
      have hfirst : isDigitByte byte = true := by
        have hlow : (48 : UInt8) ≤ byte := UInt8.le_trans (by decide) hdigit.1
        simp [isDigitByte, hlow, hdigit.2]
      have hlen := (List.takeWhile_prefix (l := bytes.drop start) isDigitByte).length_le
      rw [List.length_drop] at hlen
      rw [hcons, List.takeWhile_cons_of_pos hfirst, List.length_cons] at h hlen
      omega

/-- The release numbers after the first, from `start`: where they end, or
`none` where a `.` and a digit begin no number. -/
def releases (bytes : List UInt8) (start : Nat) : Option Nat :=
  if bytes[start]? = some 46 ∧ (bytes[start + 1]?).any isDigitByte then
    match _h : numberEnd bytes (start + 1) with
    | some stop => releases bytes stop
    | none => none
  else some start
termination_by bytes.length - start
decreasing_by
  have hrange := numberEnd_range ‹_›
  omega

/-- One optional part, a tag and a number, at `start`: where it ends. The
inner `none` is a tag without its number, the outer one a panic. -/
def part (bytes : List UInt8) (tags : List (List UInt8)) (start : Nat) : Option (Option Nat) :=
  (sliceFrom bytes start).map fun rest =>
    match tags.find? fun tag => tag.isPrefixOf rest with
    | some tag => numberEnd bytes (start + tag.length)
    | none => some start

def partsEnd (bytes : List UInt8) : List (List (List UInt8)) → Nat → Option Bool
  | [], start => some (start == bytes.length)
  | tags :: rest, start =>
    match part bytes tags start with
    | none => none
    | some none => some false
    | some (some stop) => partsEnd bytes rest stop

/-- The tags of a pre-release, a post-release and a development release. -/
def versionTags : List (List (List UInt8)) :=
  [[Bytes.utf8 "rc", Bytes.utf8 "a", Bytes.utf8 "b"], [Bytes.utf8 ".post"], [Bytes.utf8 ".dev"]]

/-- Whether a version is canonical, as PEP 440 writes it without epochs and
local versions: `none` is a panic. -/
def isCanonicalVersion (bytes : List UInt8) : Option Bool :=
  match numberEnd bytes 0 with
  | none => some false
  | some start =>
    match releases bytes start with
    | none => some false
    | some stop => partsEnd bytes versionTags stop

/-- A package version in its canonical form. -/
structure PackageVersion where
  text : String
  canonical : isCanonicalVersion (Bytes.utf8 text) = some true
  deriving DecidableEq

def PackageVersion.new (version : String) : Except ProtocolError PackageVersion :=
  if h : isCanonicalVersion (Bytes.utf8 version) = some true then .ok ⟨version, h⟩
  else .error (.invalidPackageVersion version)

end QuantForge.Bundle
