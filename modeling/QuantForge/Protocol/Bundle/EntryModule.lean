import QuantForge.Protocol.Bundle.Canonical

namespace QuantForge.Bundle

/-- The Python module a file is, if it is Python: its path without `.py`, `/`
as `.`, and a trailing `__init__` dropped. -/
def modulePath (path : BundlePath) : Option String :=
  (Text.stripSuffix pySuffix path.text.toList).map fun stem =>
    String.ofList (Text.join ['.'] (moduleParts stem))

/-- The bundle holds the entry's file, and no other file of the entry's
module. -/
def OnlyModule (b : Bundle) : Prop :=
  b.manifest.entry.file ∈ b.files.map BundleFile.path ∧
    modulePath b.manifest.entry.file = some b.manifest.entry.module_ ∧
    ∀ file ∈ b.files, modulePath file.path = some b.manifest.entry.module_ →
      file.path = b.manifest.entry.file

def packageSuffix : List Char := '/' :: initName

/-- A stem without the `__init__` that names its package. -/
def moduleRoot (stem : List Char) : List Char :=
  if stem = initName then [] else (Text.stripSuffix packageSuffix stem).getD stem

/-- A root with any of its `/` written as `.`. -/
def respellings : List Char → List (List Char)
  | [] => [[]]
  | c :: cs =>
    if c = '/' then (respellings cs).map ('/' :: ·) ++ (respellings cs).map ('.' :: ·)
    else (respellings cs).map (c :: ·)

/-- The paths a module may be written at, from its root: a file of its name,
or the `__init__.py` of its package, with any `/` of the root as `.`. -/
def moduleFiles (root : List Char) : List (List Char) :=
  (respellings root).flatMap fun spelling =>
    (if moduleRoot spelling = spelling then [spelling ++ pySuffix] else []) ++
      [spelling ++ packageSuffix ++ pySuffix]

/-- A Python file's path without `.py` and without a package's `__init__`. -/
def fileRoot (path : BundlePath) : List Char :=
  moduleRoot ((Text.stripSuffix pySuffix path.text.toList).getD [])

/-- No file but the entry's own is at a path the entry's module may be
written at. -/
def NoRival (b : Bundle) : Prop :=
  ∀ file ∈ b.files, file.path.text.toList ∈ moduleFiles (fileRoot b.manifest.entry.file) →
    file.path = b.manifest.entry.file

def dotted (c : Char) : Char := if c = '/' then '.' else c

theorem initName_plain : initName.splitOn '/' = [initName] :=
  List.splitOn_eq_singleton (by decide)

/-- A stem is its package's `__init__`, the root's own `__init__`, or a
module of its own. -/
theorem moduleParts_split {stem : List Char} (hinit : stem ≠ initName) :
    moduleParts stem = (moduleRoot stem).splitOn '/' := by
  cases hstrip : Text.stripSuffix packageSuffix stem with
  | some root =>
    have hstem := Text.stripSuffix_some.mp hstrip
    have hparts : stem.splitOn '/' = root.splitOn '/' ++ [initName] := by
      rw [hstem, packageSuffix, List.splitOn_append_cons_self, initName_plain]
    simp only [moduleParts, hparts, List.getLast?_concat, if_true, List.dropLast_concat, moduleRoot,
      if_neg hinit, hstrip, Option.getD_some]
  | none =>
    have hlast : (stem.splitOn '/').getLast? ≠ some initName := by
      intro hlast
      obtain ⟨before, hparts⟩ := List.getLast?_eq_some_iff.mp hlast
      have hstem : ['/'].intercalate (stem.splitOn '/') = stem := List.intercalate_splitOn '/'
      rw [hparts] at hstem
      by_cases hbefore : before = []
      · subst hbefore
        exact hinit (by rw [← hstem]; simp [List.intercalate])
      · rw [Split.intercalate_concat '/' initName hbefore] at hstem
        have hsome : Text.stripSuffix packageSuffix stem = some (['/'].intercalate before) :=
          Text.stripSuffix_some.mpr hstem.symm
        rw [hsome] at hstrip
        cases hstrip
    simp only [moduleParts, if_neg hlast, moduleRoot, if_neg hinit, hstrip, Option.getD_none]

/-- A module's name is its root with each `/` as `.`. -/
theorem module_dotted (stem : List Char) :
    Text.join ['.'] (moduleParts stem) = (moduleRoot stem).map dotted := by
  by_cases hinit : stem = initName
  · subst hinit
    decide
  · rw [moduleParts_split hinit]
    exact Split.join_splitOn '/' '.' (moduleRoot stem)

/-- Without a `.` of its own, a root is respelled by the texts that read the
same with `/` as `.`. -/
theorem mem_respellings {root spelling : List Char} (hdots : '.' ∉ root) :
    spelling ∈ respellings root ↔ spelling.map dotted = root.map dotted := by
  induction root generalizing spelling with
  | nil => simp [respellings]
  | cons c cs ih =>
    have hc : c ≠ '.' := fun hc => hdots (by simp [hc])
    have ih : ∀ spelling, spelling ∈ respellings cs ↔ spelling.map dotted = cs.map dotted :=
      fun spelling => ih fun hcs => hdots (by simp [hcs])
    unfold respellings
    cases spelling with
    | nil => split_ifs <;> simp
    | cons d ds =>
      by_cases hslash : c = '/'
      · subst hslash
        simp only [if_true, List.mem_append, List.mem_map, List.cons.injEq, List.map_cons, dotted]
        by_cases hd : d = '/'
        · simp [hd, ih]
        · simp [hd, ih, eq_comm, and_comm]
      · simp only [if_neg hslash, List.mem_map, List.cons.injEq, List.map_cons, dotted]
        by_cases hd : d = '/'
        · have hne : c ≠ '/' ∧ '.' ≠ c := ⟨hslash, fun h => hc h.symm⟩
          simp [hd, hne]
        · simp [hd, ih, eq_comm, and_comm]

theorem moduleRoot_package (root : List Char) : moduleRoot (root ++ packageSuffix) = root := by
  have hinit : root ++ packageSuffix ≠ initName := by
    intro heq
    have hslash : '/' ∈ initName := by
      rw [← heq]
      simp [packageSuffix]
    exact absurd hslash (by decide)
  rw [moduleRoot, if_neg hinit, Text.stripSuffix_some.mpr rfl, Option.getD_some]

/-- A Python file is at a path of the module at `root` exactly when its own
root respells it. -/
theorem mem_moduleFiles {root stem : List Char} (hroot : root ≠ []) (hdots : '.' ∉ root) :
    stem ++ pySuffix ∈ moduleFiles root ↔ moduleRoot stem ∈ respellings root := by
  rw [moduleFiles, List.mem_flatMap]
  constructor
  · rintro ⟨spelling, hspelling, hmem⟩
    rcases List.mem_append.mp hmem with hmodule | hpackage
    · split_ifs at hmodule with hown
      · have hstem : stem = spelling := List.append_cancel_right (List.mem_singleton.mp hmodule)
        rw [hstem, hown]
        exact hspelling
      · simp at hmodule
    · have hstem : stem = spelling ++ packageSuffix :=
        List.append_cancel_right (List.mem_singleton.mp hpackage)
      rw [hstem, moduleRoot_package]
      exact hspelling
  · intro hmem
    refine ⟨moduleRoot stem, hmem, ?_⟩
    by_cases hinit : stem = initName
    · have hnil : moduleRoot stem = [] := if_pos hinit
      rw [hnil, mem_respellings hdots] at hmem
      exact absurd (List.map_eq_nil_iff.mp hmem.symm) hroot
    · cases hstrip : Text.stripSuffix packageSuffix stem with
      | some before =>
        have hbefore : moduleRoot stem = before := by
          rw [moduleRoot, if_neg hinit, hstrip, Option.getD_some]
        rw [hbefore, Text.stripSuffix_some.mp hstrip]
        simp
      | none =>
        have hown : moduleRoot stem = stem := by
          rw [moduleRoot, if_neg hinit, hstrip, Option.getD_none]
        simp [hown]

/-- The files of a module are the ones at the paths it may be written at. -/
theorem modulePath_iff {root : List Char} (hroot : root ≠ []) (hdots : '.' ∉ root)
    (path : BundlePath) :
    modulePath path = some (String.ofList (root.map dotted)) ↔
      path.text.toList ∈ moduleFiles root := by
  rw [modulePath, Option.map_eq_some_iff]
  constructor
  · rintro ⟨stem, hstem, hmodule⟩
    rw [Text.stripSuffix_some.mp hstem, mem_moduleFiles hroot hdots, mem_respellings hdots,
      ← module_dotted]
    exact String.ofList_injective hmodule
  · intro hmem
    obtain ⟨stem, hstem⟩ : ∃ stem, path.text.toList = stem ++ pySuffix := by
      obtain ⟨spelling, -, hmem⟩ := List.mem_flatMap.mp hmem
      rcases List.mem_append.mp hmem with hmodule | hpackage
      · split_ifs at hmodule
        · exact ⟨spelling, List.mem_singleton.mp hmodule⟩
        · simp at hmodule
      · exact ⟨spelling ++ packageSuffix, List.mem_singleton.mp hpackage⟩
    rw [hstem, mem_moduleFiles hroot hdots, mem_respellings hdots] at hmem
    exact ⟨stem, Text.stripSuffix_some.mpr hstem, by rw [module_dotted, hmem]⟩

theorem identifier_no_dot {name : List Char} (h : identifierFault name = none) : '.' ∉ name := by
  simp only [identifierFault] at h
  split_ifs at h with hchars
  intro hdot
  have hall : name.all identifierChar = true := by
    rw [Bool.or_eq_true, not_or] at hchars
    simpa using hchars.2
  exact absurd (List.all_eq_true.mp hall '.' hdot) (by decide)

/-- An accepted entry's root: some text without a `.`, which is its module
with each `/` as `.`. -/
theorem entry_root {e : Entry} {stem : List Char} (h : e.Names stem) :
    fileRoot e.file = moduleRoot stem ∧ moduleRoot stem ≠ [] ∧ '.' ∉ moduleRoot stem ∧
      e.module_ = String.ofList ((moduleRoot stem).map dotted) := by
  have hinit : stem ≠ initName := by
    intro hinit
    exact h.parts_ne (by rw [hinit]; decide)
  have hparts := moduleParts_split hinit
  refine ⟨?_, ?_, ?_, ?_⟩
  · rw [fileRoot, Text.stripSuffix_some.mpr h.file_eq, Option.getD_some]
  · intro hnil
    rw [hnil] at hparts
    have hempty := h.parts_ok [] (by rw [hparts]; simp)
    exact absurd hempty (by decide)
  · intro hdot
    rcases Split.mem_splitOn (x := '/') hdot with hslash | ⟨part, hpart, hdot⟩
    · exact absurd hslash (by decide)
    · rw [← hparts] at hpart
      exact identifier_no_dot (h.parts_ok part hpart) hdot
  · rw [← module_dotted, ← h.module_eq, String.ofList_toList]

section

variable [TomlParser]

/-- An accepted bundle's entry is one the grammar reads, and names a file of
the bundle. -/
theorem fromFiles_entry {files : List (String × List UInt8)} {limits : BundleLimits} {b : Bundle}
    (h : fromFiles files limits = .ok b) :
    (∃ stem, b.manifest.entry.Names stem) ∧
      b.manifest.entry.file ∈ b.files.map BundleFile.path := by
  have haccepted := checkBundle_ok.mp h
  obtain ⟨bytes, -, -, hparse⟩ := haccepted.manifest_eq
  obtain ⟨table, -, hread⟩ := Manifest.parse_ok.mp hparse
  obtain ⟨⟨text, htext⟩, hmem⟩ := Manifest.entry_ok hread.entry_eq
  have hpaths := (check_sound candidatesOf_read haccepted.problems_nil).2
  rw [hpaths, ← haccepted.files_eq] at hmem
  exact ⟨Entry.parse_ok htext, hmem⟩

/-- The worker's module is the entry's file alone exactly when the bundle
holds no other file at a path of that module. -/
theorem only_module_iff {files : List (String × List UInt8)} {limits : BundleLimits} {b : Bundle}
    (h : fromFiles files limits = .ok b) : OnlyModule b ↔ NoRival b := by
  obtain ⟨⟨stem, hnames⟩, hmem⟩ := fromFiles_entry h
  obtain ⟨hfile, hroot, hdots, hmodule⟩ := entry_root hnames
  have hiff := modulePath_iff hroot hdots
  rw [← hmodule] at hiff
  have hown : modulePath b.manifest.entry.file = some b.manifest.entry.module_ := by
    rw [modulePath, Text.stripSuffix_some.mpr hnames.file_eq, Option.map_some, ← hnames.module_eq,
      String.ofList_toList]
  unfold OnlyModule NoRival
  rw [hfile]
  constructor
  · rintro ⟨-, -, honly⟩ file hf hrival
    exact honly file hf ((hiff file.path).mpr hrival)
  · intro hnone
    exact ⟨hmem, hown, fun file hf hsame => hnone file hf ((hiff file.path).mp hsame)⟩

end

attribute [local instance] sampleParser

theorem sampleBundle_only_module : OnlyModule sampleBundle ↔ NoRival sampleBundle :=
  only_module_iff sampleFiles_accepted

/-- A package beside the module of its name. -/
def rivalFiles : List (String × List UInt8) := sampleFiles ++ [("pkg/__init__.py", [])]

def rivalBundle : Bundle :=
  ⟨sampleManifest, (check (candidatesOf rivalFiles) BundleLimits.default).files⟩

theorem rivalFiles_accepted : fromFiles rivalFiles BundleLimits.default = .ok rivalBundle := by
  apply checkBundle_ok.mpr
  refine ⟨by decide +kernel, rfl, Bytes.utf8 sampleText, by decide, by decide +kernel, ?_⟩
  apply sample_parse
  decide +kernel

/-- `import pkg` finds the package, and the manifest names `pkg.py`. -/
theorem rival_accepted :
    fromFiles rivalFiles BundleLimits.default = .ok rivalBundle ∧ ¬OnlyModule rivalBundle := by
  refine ⟨rivalFiles_accepted, ?_⟩
  rintro ⟨-, -, honly⟩
  have hfile : ∃ file ∈ rivalBundle.files, modulePath file.path = some "pkg" ∧
      file.path ≠ samplePath := by decide +kernel
  obtain ⟨file, hmem, hsame, hne⟩ := hfile
  exact hne (honly file hmem hsame)

end QuantForge.Bundle
