import QuantForge.Framework.Reader
import QuantForge.Protocol.Bundle.Canonical
import QuantForge.Protocol.Bundle.Faults

namespace QuantForge.Bundle.Manifest

/-- Whether a key holds text that its reader accepts as a value that is wanted. -/
def readsAs {α : Type} (read : String → Except ProtocolError α) (wanted : α → Bool)
    (table : TomlTable) (key : String) : Bool :=
  match table.lookup key with
  | some (.string text) =>
    match read text with
    | .ok value => wanted value
    | .error _ => false
  | _ => false

def canonicalName (name : String) : Bool := (PackageName.new name).isOk

def canonicalVersion : Toml → Bool
  | .string text => (PackageVersion.new text).isOk
  | _ => false

/-- What the table under a key holds, where it is one. -/
def tableAt (table : TomlTable) (key : String) : TomlTable :=
  match table.lookup key with
  | some (.table pairs) => pairs
  | _ => []

/-- A key that is absent or holds a table. -/
def TableOrNone (table : TomlTable) (key : String) : Prop :=
  ∀ value, table.lookup key = some value → ∃ pairs, value = .table pairs

/-- A manifest as the spec has it. -/
structure Wellformed (table : TomlTable) (paths : List BundlePath) : Prop where
  format : table.lookup "format" = some (.integer 1)
  entry : readsAs Entry.parse (fun entry => entry.file ∈ paths) table "entry" = true
  engine : readsAs EngineRequirement.parse (fun _ => true) table "engine" = true
  python : readsAs PythonVersion.parse (fun _ => true) table "python" = true
  params : TableOrNone table "params" ∧ Params.PlainPairs (tableAt table "params")
  deps : TableOrNone table "deps" ∧
    ∀ dep ∈ tableAt table "deps", canonicalName dep.1 = true ∧ canonicalVersion dep.2 = true
  known : ∀ pair ∈ table, pair.1 ∈ manifestKeys

def paramsFaults (table : TomlTable) : List Fault :=
  match table.lookup "params" with
  | none => []
  | some (.table pairs) => (Params.pairFaults (say "params") pairs).map .param
  | some _ => [.params]

def depFaults (name : String) (version : Toml) : List Fault :=
  (if canonicalName name then [] else [.depName name]) ++
    if canonicalVersion version then [] else [.depVersion name]

def depsFaults (table : TomlTable) : List Fault :=
  match table.lookup "deps" with
  | none => []
  | some (.table entries) => entries.flatMap fun (name, version) => depFaults name version
  | some _ => [.deps]

/-- What is wrong with a manifest of format 1, key by key. -/
def faults (table : TomlTable) (paths : List BundlePath) : List Fault :=
  (if readsAs Entry.parse (fun entry => entry.file ∈ paths) table "entry" then [] else [.entry]) ++
    (if readsAs EngineRequirement.parse (fun _ => true) table "engine" then [] else [.engine]) ++
    (if readsAs PythonVersion.parse (fun _ => true) table "python" then [] else [.python]) ++
    paramsFaults table ++ depsFaults table ++
    ((table.map Prod.fst).filter fun key => key ∉ manifestKeys).map .unknown

section

variable {α : Type} {table : TomlTable} {key : String} {paths : List BundlePath}

/-- A check that passes reports nothing, and one that fails its fault. -/
theorem keep_faults {checked : Except BundleProblem α} {passes : Bool} {fault : Fault}
    (hpasses : checked.isOk = passes)
    (hnames : ∀ problem, checked = .error problem → fault.Names problem) :
    List.Forall₂ Fault.Names (if passes then [] else [fault]) (keep checked).2 := by
  cases checked with
  | ok value =>
    have htrue : passes = true := hpasses.symm
    rw [if_pos htrue]
    exact .nil
  | error problem =>
    have hfalse : ¬ passes = true := by
      rw [← hpasses]
      exact Bool.false_ne_true
    rw [if_neg hfalse]
    exact .cons (hnames problem rfl) .nil

theorem parsed_isOk (read : String → Except ProtocolError α) (code : ProblemCode)
    (sample : String) :
    (parsed read table key code sample).isOk = readsAs read (fun _ => true) table key := by
  unfold parsed readsAs string_
  cases table.lookup key with
  | none => rfl
  | some value =>
    cases value with
    | string text => cases hread : read text <;> simp only [hread] <;> rfl
    | _ => rfl

theorem string_code {code : ProblemCode} {sample : String} {problem : BundleProblem}
    (h : string_ table key code sample = .error problem) : problem.code = code := by
  unfold string_ at h
  cases hlookup : table.lookup key with
  | none =>
    rw [hlookup] at h
    cases h
    rfl
  | some value =>
    rw [hlookup] at h
    cases value <;> cases h <;> rfl

theorem parsed_code {read : String → Except ProtocolError α} {code : ProblemCode}
    {sample : String} {problem : BundleProblem}
    (h : parsed read table key code sample = .error problem) : problem.code = code := by
  unfold parsed at h
  cases hstring : string_ table key code sample with
  | error other =>
    rw [hstring] at h
    cases h
    exact string_code hstring
  | ok text =>
    rw [hstring] at h
    cases hread : read text with
    | ok value =>
      simp only [hread] at h
      cases h
    | error error =>
      simp only [hread] at h
      cases h
      rfl

theorem entry_isOk : (entry_ table paths).isOk =
    readsAs Entry.parse (fun entry => entry.file ∈ paths) table "entry" := by
  unfold entry_ parsed readsAs string_
  cases table.lookup "entry" with
  | none => rfl
  | some value =>
    cases value with
    | string text =>
      cases hread : Entry.parse text with
      | error error =>
        simp only [hread]
        rfl
      | ok entry =>
        simp only [hread]
        by_cases hmem : entry.file ∈ paths
        · rw [if_pos hmem]
          exact (decide_eq_true hmem).symm
        · rw [if_neg hmem]
          exact (decide_eq_false hmem).symm
    | _ => rfl

theorem entry_code {problem : BundleProblem} (h : entry_ table paths = .error problem) :
    Fault.entry.Names problem := by
  unfold entry_ at h
  cases hparsed : parsed Entry.parse table "entry" .entryInvalid "\"strategy.py:MyStrategy\"" with
  | error other =>
    rw [hparsed] at h
    cases h
    exact .inl (parsed_code hparsed)
  | ok entry =>
    rw [hparsed] at h
    dsimp only at h
    by_cases hmem : entry.file ∈ paths
    · rw [if_pos hmem] at h
      cases h
    · rw [if_neg hmem] at h
      cases h
      exact .inr rfl

theorem params_faults :
    List.Forall₂ Fault.Names (paramsFaults table) (params_ table).2 := by
  unfold paramsFaults params_
  cases table.lookup "params" with
  | none => exact .nil
  | some value =>
    cases value with
    | table pairs =>
      exact (List.forall₂_map_left_iff).mpr (Params.convertTable_faults (say "params") pairs)
    | _ => exact .cons rfl .nil

/-- A refused part of a dependency is named by the dependency's key. -/
theorem refused_at (name : String) (error : ProtocolError) :
    [.text "deps.", shownKey name] <+:
      ([.text "deps.", shownKey name] ++ [.text ": "] ++ error.message : Message) :=
  (List.prefix_append _ _).trans (List.prefix_append _ _)

theorem dep_faults (name : String) (version : Toml) :
    List.Forall₂ Fault.Names (depFaults name version) (dep name version).2 := by
  apply List.rel_append
  · apply keep_faults
    · rw [canonicalName]
      cases PackageName.new name <;> rfl
    · intro problem hproblem
      cases hnew : PackageName.new name with
      | ok package =>
        rw [hnew] at hproblem
        cases hproblem
      | error error =>
        rw [hnew] at hproblem
        cases hproblem
        exact ⟨rfl, refused_at name error⟩
  · apply keep_faults
    · cases version with
      | string text =>
        rw [canonicalVersion]
        cases hnew : PackageVersion.new text <;> simp only [hnew] <;> rfl
      | _ => rfl
    · intro problem hproblem
      cases version with
      | string text =>
        cases hnew : PackageVersion.new text with
        | ok version =>
          simp only [hnew] at hproblem
          cases hproblem
        | error error =>
          simp only [hnew] at hproblem
          cases hproblem
          exact ⟨rfl, refused_at name error⟩
      | _ =>
        cases hproblem
        exact ⟨rfl, List.prefix_append _ _⟩

theorem deps_faults : List.Forall₂ Fault.Names (depsFaults table) (deps_ table).2 := by
  unfold depsFaults deps_
  cases table.lookup "deps" with
  | none => exact .nil
  | some value =>
    cases value with
    | table entries =>
      dsimp only
      induction entries with
      | nil => exact .nil
      | cons entry entries ih =>
        rw [List.flatMap_cons, List.flatMap_cons]
        exact List.rel_append (dep_faults entry.1 entry.2) ih
    | _ => exact .cons rfl .nil

theorem unknown_faults : List.Forall₂ Fault.Names
    (((table.map Prod.fst).filter fun key => key ∉ manifestKeys).map .unknown)
      (unknownKeys table) := by
  rw [unknownKeys, List.forall₂_map_left_iff, List.forall₂_map_right_iff]
  apply List.forall₂_same.mpr
  intro key _
  exact ⟨rfl, by simp [invalid]⟩

theorem entry_faults : List.Forall₂ Fault.Names
    (if readsAs Entry.parse (fun entry => entry.file ∈ paths) table "entry" then [] else [.entry])
      (keep (entry_ table paths)).2 :=
  keep_faults entry_isOk fun _ => entry_code

theorem engine_faults : List.Forall₂ Fault.Names
    (if readsAs EngineRequirement.parse (fun _ => true) table "engine" then [] else [.engine])
      (keep (engine_ table)).2 :=
  keep_faults (parsed_isOk _ _ _) fun _ => parsed_code

theorem python_faults : List.Forall₂ Fault.Names
    (if readsAs PythonVersion.parse (fun _ => true) table "python" then [] else [.python])
      (keep (python_ table)).2 :=
  keep_faults (parsed_isOk _ _ _) fun _ => parsed_code

/-- The checks of a manifest of format 1 report each fault once, in the order of the spec. -/
theorem problems_faults (table : TomlTable) (paths : List BundlePath) :
    List.Forall₂ Fault.Names (faults table paths)
      ((keep (entry_ table paths)).2 ++ (keep (engine_ table)).2 ++ (keep (python_ table)).2 ++
        (params_ table).2 ++ (deps_ table).2 ++ unknownKeys table) := by
  unfold faults
  apply List.rel_append _ unknown_faults
  apply List.rel_append _ deps_faults
  apply List.rel_append _ params_faults
  apply List.rel_append _ python_faults
  exact List.rel_append entry_faults engine_faults

theorem format_iff : (∃ format, format_ table = .ok format) ↔
    table.lookup "format" = some (.integer 1) := by
  unfold format_
  cases table.lookup "format" with
  | none => simp
  | some value =>
    cases value with
    | integer format =>
      have hone : format.toInt = bundleFormat ↔ format = 1 := by
        rw [← Int64.toInt_inj]
        rfl
      by_cases hformat : format.toInt = bundleFormat
      · constructor
        · intro _
          rw [hone.mp hformat]
        · intro _
          exact ⟨_, if_pos hformat⟩
      · constructor
        · intro hok
          obtain ⟨_, hok⟩ := hok
          dsimp only at hok
          rw [if_neg hformat] at hok
          cases hok
        · intro heq
          cases heq
          exact absurd rfl hformat
    | _ => simp

theorem if_nil {passes : Bool} {fault : Fault} :
    (if passes then [] else [fault]) = [] ↔ passes = true := by
  cases passes <;> simp

theorem paramsFaults_nil : paramsFaults table = [] ↔
    TableOrNone table "params" ∧ Params.PlainPairs (tableAt table "params") := by
  unfold paramsFaults TableOrNone tableAt
  cases table.lookup "params" with
  | none => exact ⟨fun _ => ⟨fun _ h => (by cases h), trivial⟩, fun _ => rfl⟩
  | some value =>
    cases value with
    | table pairs =>
      rw [List.map_eq_nil_iff]
      constructor
      · intro hnone
        exact ⟨fun _ h => ⟨pairs, (Option.some.inj h).symm⟩,
          Params.plain_of_pairFaults (say "params") pairs hnone⟩
      · intro h
        exact (Params.convertTable_plain (say "params") pairs h.2).1
    | _ =>
      constructor
      · intro h
        cases h
      · intro h
        obtain ⟨_, hvalue⟩ := h.1 _ rfl
        cases hvalue

theorem depsFaults_nil : depsFaults table = [] ↔ TableOrNone table "deps" ∧
    ∀ dep ∈ tableAt table "deps", canonicalName dep.1 = true ∧ canonicalVersion dep.2 = true := by
  unfold depsFaults TableOrNone tableAt
  cases table.lookup "deps" with
  | none => exact ⟨fun _ => ⟨fun _ h => (by cases h), fun _ h => (by cases h)⟩, fun _ => rfl⟩
  | some value =>
    cases value with
    | table entries =>
      rw [List.flatMap_eq_nil_iff]
      constructor
      · intro hnone
        refine ⟨fun _ h => ⟨entries, (Option.some.inj h).symm⟩, fun dep hdep => ?_⟩
        obtain ⟨hname, hversion⟩ := List.append_eq_nil_iff.mp (hnone dep hdep)
        exact ⟨if_nil.mp hname, if_nil.mp hversion⟩
      · intro h dep hdep
        obtain ⟨hname, hversion⟩ := h.2 dep hdep
        exact List.append_eq_nil_iff.mpr ⟨if_nil.mpr hname, if_nil.mpr hversion⟩
    | _ =>
      constructor
      · intro h
        cases h
      · intro h
        obtain ⟨_, hvalue⟩ := h.1 _ rfl
        cases hvalue

/-- Nothing is wrong with a manifest of format 1 exactly where it is as the spec has it. -/
theorem faults_nil (hformat : table.lookup "format" = some (.integer 1)) :
    faults table paths = [] ↔ Wellformed table paths := by
  unfold faults
  simp only [List.append_eq_nil_iff, if_nil, paramsFaults_nil, depsFaults_nil, List.map_eq_nil_iff,
    List.filter_eq_nil_iff, decide_eq_true_eq, not_not]
  constructor
  · intro h
    obtain ⟨⟨⟨⟨⟨entry, engine⟩, python⟩, params⟩, deps⟩, known⟩ := h
    exact ⟨hformat, entry, engine, python, params, deps,
      fun pair hpair => known pair.1 (List.mem_map_of_mem hpair)⟩
  · intro h
    refine ⟨⟨⟨⟨⟨h.entry, h.engine⟩, h.python⟩, h.params⟩, h.deps⟩, fun key hkey => ?_⟩
    obtain ⟨pair, hpair, rfl⟩ := List.mem_map.mp hkey
    exact h.known pair hpair

/-- The JSON of the params is their table, and the deps are the pairs of theirs. -/
structure Whole (table : TomlTable) (m : Manifest) : Prop where
  params : Params.SamePairs (tableAt table "params") m.params.map
  deps : m.deps.map (fun dep => (dep.1.text, Toml.string dep.2.text)) = tableAt table "deps"

theorem new_text {name : String} {package : PackageName} (h : PackageName.new name = .ok package) :
    package.text = name := by
  unfold PackageName.new at h
  split_ifs at h
  exact congrArg PackageName.text (Except.ok.inj h).symm

theorem version_text {text : String} {version : PackageVersion}
    (h : PackageVersion.new text = .ok version) : version.text = text := by
  unfold PackageVersion.new at h
  by_cases hcanonical : isCanonicalVersion (Bytes.utf8 text) = some true
  · rw [dif_pos hcanonical] at h
    rw [← Except.ok.inj h]
  · rw [dif_neg hcanonical] at h
    cases h

theorem keep_nil {checked : Except BundleProblem α} (h : (keep checked).2 = []) :
    ∃ value, checked = .ok value := by
  cases checked with
  | ok value => exact ⟨value, rfl⟩
  | error problem => cases h

theorem keep_mapError {ε : Type} (checked : Except ε α) (f : ε → BundleProblem) :
    (keep (checked.mapError f)).1 = checked.toOption := by
  cases checked <;> rfl

theorem dep_string (name text : String) :
    (dep name (.string text)).1 = (PackageName.new name).toOption.bind fun package =>
      (PackageVersion.new text).toOption.map fun version => (package, version) := by
  unfold dep
  dsimp only
  rw [keep_mapError, keep_mapError]

theorem dep_some {name : String} {version : Toml} (hname : canonicalName name = true)
    (hversion : canonicalVersion version = true) :
    ∃ pair, (dep name version).1 = some pair ∧
      (pair.1.text, Toml.string pair.2.text) = (name, version) := by
  rw [canonicalName] at hname
  cases hnew : PackageName.new name with
  | error error =>
    rw [hnew] at hname
    cases hname
  | ok package =>
    have hpackage := new_text hnew
    cases version with
    | string text =>
      rw [canonicalVersion] at hversion
      cases hpin : PackageVersion.new text with
      | error error =>
        rw [hpin] at hversion
        exact absurd hversion Bool.false_ne_true
      | ok pin =>
        have htext := version_text hpin
        refine ⟨(package, pin), ?_, by rw [hpackage, htext]⟩
        rw [dep_string, hnew, hpin]
        rfl
    | _ => cases hversion

theorem deps_pairs {entries : TomlTable}
    (h : ∀ dep ∈ entries, canonicalName dep.1 = true ∧ canonicalVersion dep.2 = true) :
    (entries.filterMap fun entry => (dep entry.1 entry.2).1).map
      (fun dep => (dep.1.text, Toml.string dep.2.text)) = entries := by
  induction entries with
  | nil => rfl
  | cons entry entries ih =>
    obtain ⟨hname, hversion⟩ := h entry List.mem_cons_self
    obtain ⟨pair, hpair, htext⟩ := dep_some hname hversion
    have hrest := ih fun dep hdep => h dep (List.mem_cons_of_mem entry hdep)
    rw [List.filterMap_cons, hpair]
    dsimp only
    rw [List.map_cons, htext, hrest]

theorem whole_of_read {m : Manifest} (h : ReadFrom table paths m) : Whole table m := by
  have params : List.Forall₂ Fault.Names (paramsFaults table) (params_ table).2 := params_faults
  have deps : List.Forall₂ Fault.Names (depsFaults table) (deps_ table).2 := deps_faults
  rw [h.params_eq] at params
  rw [h.deps_eq] at deps
  obtain ⟨_, plain⟩ := paramsFaults_nil.mp (List.forall₂_nil_right_iff.mp params)
  obtain ⟨_, canonical⟩ := depsFaults_nil.mp (List.forall₂_nil_right_iff.mp deps)
  have hparams := h.params_eq
  have hdeps := h.deps_eq
  unfold params_ at hparams
  unfold deps_ at hdeps
  constructor
  · unfold tableAt at plain ⊢
    cases hlookup : table.lookup "params" with
    | none =>
      rw [hlookup] at hparams
      have hdefault := congrArg (fun found => found.1.map) hparams
      rw [← hdefault]
      trivial
    | some value =>
      rw [hlookup] at hparams plain
      cases value with
      | table pairs =>
        have hmap := congrArg (fun found => found.1.map) hparams
        rw [← hmap]
        exact (Params.convertTable_plain (say "params") pairs plain).2
      | _ => cases congrArg Prod.snd hparams
  · unfold tableAt at canonical ⊢
    cases hlookup : table.lookup "deps" with
    | none =>
      rw [hlookup] at hdeps
      have hlist : _ = m.deps := congrArg Prod.fst hdeps
      rw [← hlist]
      rfl
    | some value =>
      rw [hlookup] at hdeps canonical
      cases value with
      | table entries =>
        have hlist : _ = m.deps := congrArg Prod.fst hdeps
        rw [← hlist]
        exact deps_pairs canonical
      | _ => cases congrArg Prod.snd hdeps

/-- A manifest is checked key by key: it is accepted exactly where every key is as the spec has
it, its params and deps are then those of its tables, and where it is not accepted each fault is
reported once. -/
theorem parse_checks [TomlParser] (bytes : List UInt8) (paths : List BundlePath) (table : TomlTable)
    (h : document bytes = .ok table) :
    ((∃ m, parse bytes paths = .ok m) ↔ Wellformed table paths) ∧
      (∀ m, parse bytes paths = .ok m → Whole table m) ∧
      (table.lookup "format" = some (.integer 1) → ∀ problems,
        parse bytes paths = .error problems →
          List.Forall₂ Fault.Names (faults table paths) problems) := by
  refine ⟨?_, ?_, ?_⟩
  · constructor
    · intro hok
      obtain ⟨m, hm⟩ := hok
      obtain ⟨other, hother, hread⟩ := parse_ok.mp hm
      rw [h] at hother
      cases hother
      have hformat := format_iff.mp ⟨m.format, hread.format_eq⟩
      have problems := problems_faults table paths
      rw [hread.entry_eq, hread.engine_eq, hread.python_eq, hread.params_eq, hread.deps_eq,
        hread.keys_known] at problems
      exact (faults_nil hformat).mp (List.forall₂_nil_right_iff.mp problems)
    · intro hwell
      have problems := problems_faults table paths
      rw [(faults_nil hwell.format).mpr hwell] at problems
      have hnil := List.forall₂_nil_left_iff.mp problems
      simp only [List.append_eq_nil_iff] at hnil
      obtain ⟨⟨⟨⟨⟨hentry, hengine⟩, hpython⟩, hparams⟩, hdeps⟩, hkeys⟩ := hnil
      obtain ⟨format, hformat⟩ := format_iff.mpr hwell.format
      obtain ⟨entry, hentry⟩ := keep_nil hentry
      obtain ⟨engine, hengine⟩ := keep_nil hengine
      obtain ⟨python, hpython⟩ := keep_nil hpython
      exact ⟨⟨format, entry, engine, python, (params_ table).1, (deps_ table).1⟩,
        parse_ok.mpr ⟨table, h, hformat, hentry, hengine, hpython, Prod.ext rfl hparams,
          Prod.ext rfl hdeps, hkeys⟩⟩
  · intro m hm
    obtain ⟨other, hother, hread⟩ := parse_ok.mp hm
    rw [h] at hother
    cases hother
    exact whole_of_read hread
  · intro hformat problems herror
    obtain ⟨format, hok⟩ := format_iff.mpr hformat
    have reported := problems_faults table paths
    simp only [parse, h, hok] at herror
    split at herror
    · split_ifs at herror
      cases herror
      exact reported
    · cases herror
      exact reported

end

/-- A manifest with nested params, an array and a pinned dependency. -/
def tunedText : String :=
  sampleText ++ "[params]\nfast = 20\nlevels = [1, 2]\n[params.stop]\ntrailing = true\n" ++
    "[deps]\nnumpy = \"2.1.3\"\n"

def tunedTable : TomlTable :=
  [("deps", .table [("numpy", .string "2.1.3")]), ("engine", .string ">=0.3.0, <0.4.0"),
    ("entry", .string "pkg.py:Hold"), ("format", .integer 1),
    ("params", .table [("fast", .integer 20), ("levels", .array [.integer 1, .integer 2]),
      ("stop", .table [("trailing", .boolean true)])]),
    ("python", .string "3.12")]

@[reducible] def tunedParser : TomlParser :=
  ⟨fun text => if text = tunedText then .ok tunedTable else .error ⟨"expected the sample", none⟩⟩

attribute [local instance] tunedParser

def tunedManifest : Manifest := { sampleManifest with
  params := ⟨[("fast", .integer 20), ("levels", .array [.integer 1, .integer 2]),
    ("stop", .object [("trailing", .bool true)])]⟩
  deps := [(⟨"numpy", by decide⟩, ⟨"2.1.3", by decide +kernel⟩)] }

/-- The manifest is as the spec has it, and its params and its dependency are all there. -/
theorem tuned_wellformed : Wellformed tunedTable [samplePath] ∧ Whole tunedTable tunedManifest := by
  have hdocument : document (Bytes.utf8 tunedText) = .ok tunedTable :=
    document_ok (by decide +kernel) (by decide +kernel) (if_pos rfl) (by decide +kernel)
  have hentry : parsed Entry.parse tunedTable "entry" .entryInvalid
      "\"strategy.py:MyStrategy\"" = .ok tunedManifest.entry := rfl
  have hparse : parse (Bytes.utf8 tunedText) [samplePath] = .ok tunedManifest := by
    refine parse_ok.mpr ⟨tunedTable, hdocument, rfl, ?_, rfl, rfl, rfl, by decide +kernel, rfl⟩
    rw [entry_, hentry]
    exact if_pos List.mem_cons_self
  obtain ⟨hchecks, hwhole, -⟩ :=
    parse_checks (Bytes.utf8 tunedText) [samplePath] tunedTable hdocument
  exact ⟨hchecks.mp ⟨tunedManifest, hparse⟩, hwhole tunedManifest hparse⟩

end QuantForge.Bundle.Manifest
