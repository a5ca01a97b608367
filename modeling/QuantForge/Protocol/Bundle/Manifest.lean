import QuantForge.Protocol.Bundle.Entry
import QuantForge.Protocol.Bundle.Params
import QuantForge.Protocol.Bundle.Requirement

namespace QuantForge.Bundle

def bundleFormat : Nat := 1

def manifestFile : String := "quantforge.toml"

def maxManifestBytes : Nat := 64 * 1024

/-- The deepest a manifest's values may nest; the root table is one level. -/
def maxManifestDepth : Nat := 32

/-- The keys of a format 1 manifest, in the order the spec lists them. -/
def manifestKeys : List String := ["format", "entry", "engine", "python", "params", "deps"]

/-- A checked manifest. -/
structure Manifest where
  format : UInt32
  entry : Entry
  engine : EngineRequirement
  python : PythonVersion
  params : Params
  deps : List (PackageName × PackageVersion)

namespace Manifest

def invalid (message : Message) : BundleProblem := ⟨.manifestInvalid, message⟩

/-- The 1-based line and column, in characters, of a byte offset. -/
def location (text : String) (offset : Nat) : Nat × Nat :=
  let cut := (Bytes.utf8 text).take offset
  let before :=
    if offset ≤ (Bytes.utf8 text).length then (Bytes.fromUtf8 cut).getD text else text
  (before.toList.count '\n' + 1, ((before.toList.splitOn '\n').getLastD []).length + 1)

mutual

/-- What bundle TOML refuses in a value `depth` levels deep. -/
def valueFault (depth : Nat) (at_ : Message) : Toml → Option Message
  | .float bits =>
    if floatFinite bits then none
    else some ([.text "holds ", .float bits, .text " at "] ++ at_ ++
      [.text ", but a manifest's numbers are finite"])
  | .array items =>
    if maxManifestDepth < depth + 1 then
      some [.text "nests its values more than ", number maxManifestDepth, .text " levels deep"]
    else itemsFault (depth + 1) at_ 0 items
  | .table pairs =>
    if maxManifestDepth < depth + 1 then
      some [.text "nests its values more than ", number maxManifestDepth, .text " levels deep"]
    else pairsFault (depth + 1) at_ pairs
  | _ => none

def itemsFault (depth : Nat) (at_ : Message) (index : Nat) : List Toml → Option Message
  | [] => none
  | item :: items =>
    (valueFault depth (at_ ++ [.text "[", number index, .text "]"]) item).or
      (itemsFault depth at_ (index + 1) items)

def pairsFault (depth : Nat) (at_ : Message) : List (String × Toml) → Option Message
  | [] => none
  | (key, value) :: pairs =>
    (valueFault depth (at_ ++ [.text ".", shownKey key]) value).or (pairsFault depth at_ pairs)

end

/-- The first value, depth first in key order, that bundle TOML refuses: one
nested too deep, or a number that is not finite. -/
def subsetFault (table : TomlTable) : Option Message :=
  firstFault (fun (key, value) => valueFault 1 [shownKey key] value) table

/-- The manifest as a TOML table, if it is bundle TOML. -/
def document [TomlParser] (bytes : List UInt8) : Except BundleProblem TomlTable :=
  if maxManifestBytes < bytes.length then
    .error (invalid [.text manifestFile, .text " is ", number bytes.length, .text " bytes, over the ",
      number maxManifestBytes, .text " a manifest may hold"])
  else if [0xEF, 0xBB, 0xBF].isPrefixOf bytes then
    .error (invalid [.text manifestFile, .text (" starts with a byte-order mark, which Python's " ++
      "tomllib refuses; save it as UTF-8 without one")])
  else
    match Bytes.fromUtf8 bytes with
    | none =>
      .error (invalid [.text manifestFile, .text " is not UTF-8: ", .utf8Error bytes])
    | some text =>
      match TomlParser.parse text with
      | .error error =>
        let message := String.ofList (Text.replace '\n' "; ".toList
          (Text.trim Text.isWhitespace error.message.toList))
        match error.start with
        | some start =>
          let place := location text start
          .error (invalid [.text manifestFile, .text " line ", number place.1, .text ", column ",
            number place.2, .text ": ", .text message])
        | none => .error (invalid [.text manifestFile, .text ": ", .text message])
      | .ok table =>
        match subsetFault table with
        | none => .ok table
        | some reason => .error (invalid ([.text manifestFile, .text " "] ++ reason))

def format_ (table : TomlTable) : Except BundleProblem UInt32 :=
  match table.lookup "format" with
  | none =>
    .error (invalid [.text manifestFile, .text " has no format; add format = ",
      number bundleFormat, .text " as its first line"])
  | some (.integer format) =>
    if format.toInt = bundleFormat then .ok (UInt32.ofNat bundleFormat)
    else
      .error ⟨.formatUnsupported, [.text manifestFile, .text " follows bundle format ",
        .text (toString format.toInt), .text ", but this side reads format ",
        number bundleFormat, .text " only"]⟩
  | some other =>
    .error (invalid [.text manifestFile, .text "'s format must be the integer ",
      number bundleFormat, .text ", not a ", .text other.typeStr])

/-- The string under `key`, or the problem `code` with the hint `sample`. -/
def string_ (table : TomlTable) (key : String) (code : ProblemCode) (sample : String) :
    Except BundleProblem String :=
  match table.lookup key with
  | some (.string text) => .ok text
  | none =>
    .error ⟨code, [.text manifestFile, .text " has no ", .text key, .text "; add ", .text key,
      .text " = ", .text sample]⟩
  | some other =>
    .error ⟨code, [.text manifestFile, .text "'s ", .text key,
      .text " must be a string, such as ", .text sample, .text ", not a ", .text other.typeStr]⟩

/-- The string under `key`, as `parse` reads it. -/
def parsed {α : Type} (parse : String → Except ProtocolError α) (table : TomlTable)
    (key : String) (code : ProblemCode) (sample : String) : Except BundleProblem α :=
  match string_ table key code sample with
  | .error problem => .error problem
  | .ok text =>
    match parse text with
    | .ok value => .ok value
    | .error error => .error ⟨code, error.message⟩

def entry_ (table : TomlTable) (paths : List BundlePath) : Except BundleProblem Entry :=
  match parsed Entry.parse table "entry" .entryInvalid "\"strategy.py:MyStrategy\"" with
  | .error problem => .error problem
  | .ok entry =>
    if entry.file ∈ paths then .ok entry
    else
      let python := (paths.map BundlePath.text).filter fun path =>
        pySuffix.isSuffixOf path.toList
      let holds : Piece :=
        if python.isEmpty then .text "it holds no Python files"
        else .text ("its Python files are " ++ ", ".intercalate python)
      .error ⟨.entryNotFound, [.text "the entry names ", .quoted entry.file.text,
        .text ", which the bundle does not hold; ", holds]⟩

def engine_ (table : TomlTable) : Except BundleProblem EngineRequirement :=
  parsed EngineRequirement.parse table "engine" .engineInvalid "\">=0.3.0, <0.4.0\""

def python_ (table : TomlTable) : Except BundleProblem PythonVersion :=
  parsed PythonVersion.parse table "python" .pythonInvalid "\"3.12\""

/-- What a check answers when it passes, and its problem otherwise. -/
def keep {α : Type} : Except BundleProblem α → Option α × List BundleProblem
  | .ok value => (some value, [])
  | .error problem => (none, [problem])

def params_ (table : TomlTable) : Params × List BundleProblem :=
  match table.lookup "params" with
  | none => (Params.default, [])
  | some (.table pairs) => Params.fromToml pairs
  | some other =>
    (Params.default, [⟨.paramNotJson, [.text manifestFile,
      .text "'s params must be a table, as in [params], not a ", .text other.typeStr]⟩])

def dependencyInvalid (message : Message) : BundleProblem := ⟨.dependencyInvalid, message⟩

/-- One pair of the deps table. -/
def dep (name : String) (version : Toml) :
    Option (PackageName × PackageVersion) × List BundleProblem :=
  let at_ : Message := [.text "deps.", shownKey name]
  let refuse (error : ProtocolError) := dependencyInvalid (at_ ++ [.text ": "] ++ error.message)
  let name := keep ((PackageName.new name).mapError refuse)
  let version := keep (match version with
    | .string version => (PackageVersion.new version).mapError refuse
    | other => .error (dependencyInvalid (at_ ++ [.text
        " must be a version string, such as \"2.1.3\", not a ", .text other.typeStr])))
  (name.1.bind fun name => version.1.map fun version => (name, version), name.2 ++ version.2)

/-- The pairs of the deps table that pass, in key order, and the problems of
the others. -/
def deps_ (table : TomlTable) :
    List (PackageName × PackageVersion) × List BundleProblem :=
  match table.lookup "deps" with
  | none => ([], [])
  | some (.table entries) =>
    (entries.filterMap fun (name, version) => (dep name version).1,
      entries.flatMap fun (name, version) => (dep name version).2)
  | some other =>
    ([], [dependencyInvalid [.text manifestFile,
      .text "'s deps must be a table of package versions, as in [deps], not a ",
      .text other.typeStr]])

def unknownKeys (table : TomlTable) : List BundleProblem :=
  ((table.map Prod.fst).filter fun key => key ∉ manifestKeys).map fun key =>
    invalid [.text manifestFile, .text " has the key ", shownKey key,
      .text ", which bundle format ", number bundleFormat, .text
        (" does not define; its keys are format, entry, engine, python, " ++
          "params, and deps")]

/-- Checks a manifest in the spec's order: the document, then its format,
then each key on its own. -/
def parse [TomlParser] (bytes : List UInt8) (paths : List BundlePath) :
    Except (List BundleProblem) Manifest :=
  match document bytes with
  | .error problem => .error [problem]
  | .ok table =>
    match format_ table with
    | .error problem => .error [problem]
    | .ok format =>
      let entry := keep (entry_ table paths)
      let engine := keep (engine_ table)
      let python := keep (python_ table)
      let params := params_ table
      let deps := deps_ table
      let problems :=
        entry.2 ++ engine.2 ++ python.2 ++ params.2 ++ deps.2 ++ unknownKeys table
      match entry.1, engine.1, python.1 with
      | some entry, some engine, some python =>
        if problems.isEmpty then .ok ⟨format, entry, engine, python, params.1, deps.1⟩
        else .error problems
      | _, _, _ => .error problems

/-- What a manifest says that `parse` accepts from the bytes of `table`. -/
structure ReadFrom (table : TomlTable) (paths : List BundlePath) (m : Manifest) : Prop where
  format_eq : format_ table = .ok m.format
  entry_eq : entry_ table paths = .ok m.entry
  engine_eq : engine_ table = .ok m.engine
  python_eq : python_ table = .ok m.python
  params_eq : params_ table = (m.params, [])
  deps_eq : deps_ table = (m.deps, [])
  keys_known : unknownKeys table = []

theorem keep_some {α : Type} {checked : Except BundleProblem α} {value : α}
    (h : (keep checked).1 = some value) : checked = .ok value := by
  cases checked with
  | error problem => simp [keep] at h
  | ok found => simpa [keep] using h

theorem parse_ok [TomlParser] {bytes : List UInt8} {paths : List BundlePath} {m : Manifest} :
    parse bytes paths = .ok m ↔ ∃ table, document bytes = .ok table ∧ ReadFrom table paths m := by
  constructor
  · intro h
    unfold parse at h
    cases hdocument : document bytes with
    | error problem => simp [hdocument] at h
    | ok table =>
      simp only [hdocument] at h
      cases hformat : format_ table with
      | error problem => simp [hformat] at h
      | ok format =>
        simp only [hformat] at h
        split at h
        · rename_i entry engine python hentry hengine hpython
          split_ifs at h with hnil
          rw [Except.ok.injEq] at h
          subst h
          simp only [List.isEmpty_iff, List.append_eq_nil_iff] at hnil
          obtain ⟨⟨⟨-, hparams⟩, hdeps⟩, hkeys⟩ := hnil
          exact ⟨table, rfl, hformat, keep_some hentry, keep_some hengine, keep_some hpython,
            Prod.ext rfl hparams, Prod.ext rfl hdeps, hkeys⟩
        · simp at h
  · rintro ⟨table, hdocument, h⟩
    simp only [parse, hdocument, h.format_eq, h.entry_eq, h.engine_eq, h.python_eq, h.params_eq,
      h.deps_eq, h.keys_known, keep, List.append_nil, List.isEmpty_nil, if_true]

theorem document_ok [TomlParser] {text : String} {table : TomlTable}
    (hlen : (Bytes.utf8 text).length ≤ maxManifestBytes)
    (hmark : [0xEF, 0xBB, 0xBF].isPrefixOf (Bytes.utf8 text) = false)
    (hparse : TomlParser.parse text = .ok table) (hsubset : subsetFault table = none) :
    document (Bytes.utf8 text) = .ok table := by
  simp only [document, if_neg (Nat.not_lt.mpr hlen), hmark, Bool.false_eq_true, if_false,
    Bytes.fromUtf8_utf8, hparse, hsubset]

/-- The entry of an accepted manifest is one the grammar reads, and its file
is in the bundle. -/
theorem entry_ok {table : TomlTable} {paths : List BundlePath} {e : Entry}
    (h : entry_ table paths = .ok e) : (∃ text, Entry.parse text = .ok e) ∧ e.file ∈ paths := by
  simp only [entry_, parsed] at h
  cases htext : string_ table "entry" .entryInvalid "\"strategy.py:MyStrategy\"" with
  | error problem => simp [htext] at h
  | ok text =>
    cases hparse : Entry.parse text with
    | error error => simp [htext, hparse] at h
    | ok entry =>
      simp only [htext, hparse] at h
      split_ifs at h with hmem
      rw [Except.ok.injEq] at h
      subst h
      exact ⟨⟨text, hparse⟩, hmem⟩

end Manifest

end QuantForge.Bundle
