import QuantForge.Protocol.Bundle.DirCheck

namespace QuantForge.Bundle

variable {limits : BundleLimits}

/-- The manifest's bytes, where the checks pass it. -/
def readManifest (candidates : List Candidate) (limits : BundleLimits) : Option (List UInt8) :=
  (manifestBytes candidates).filter fun _ =>
    okAnd (BundlePath.new manifestFile) ((check candidates limits).files.map BundleFile.path)

def manifestPath : BundlePath := ⟨manifestFile, by decide, by decide⟩

theorem manifestPath_new : BundlePath.new manifestFile = .ok manifestPath :=
  BundlePath.new_ok.mpr rfl

theorem readManifest_some {candidates : List Candidate} {bytes : List UInt8}
    (h : (candidates.map Candidate.path).Nodup) :
    readManifest candidates limits = some bytes ↔ ∃ c ∈ candidates, c.path = manifestFile ∧
      c.size ≤ limits.fileLimit ∧ c.contents = some bytes := by
  have hfind : ∀ c, (candidates.find? fun c => c.path == manifestFile) = some c ↔
      c ∈ candidates ∧ c.path = manifestFile := by
    intro c
    constructor
    · intro hfound
      exact ⟨List.mem_of_find?_eq_some hfound, by simpa using List.find?_some hfound⟩
    · intro hc
      obtain ⟨hmem, hpath⟩ := hc
      cases hfound : candidates.find? fun c => c.path == manifestFile with
      | none =>
        have hnone := List.find?_eq_none.mp hfound c hmem
        simp [hpath] at hnone
      | some other =>
        have hother := List.mem_of_find?_eq_some hfound
        have hsame : other.path = manifestFile := by simpa using List.find?_some hfound
        rw [List.inj_on_of_nodup_map h hother hmem (hsame.trans hpath.symm)]
  rw [readManifest, Option.filter_eq_some_iff, manifestBytes, Option.bind_eq_some_iff,
    manifestPath_new, okAnd, decide_eq_true_iff, List.mem_map]
  constructor
  · intro hread
    obtain ⟨⟨c, hc, hbytes⟩, file, hfile, hpath⟩ := hread
    obtain ⟨hmem, hname⟩ := (hfind c).mp hc
    obtain ⟨other, hother, hpasses⟩ := mem_files.mp hfile
    have hsame : other.path = c.path := by rw [← hpasses.path_eq, hpath, hname]; rfl
    rw [List.inj_on_of_nodup_map h hother hmem hsame] at hpasses
    exact ⟨c, hmem, hname, hpasses.size_le, hbytes⟩
  · intro hread
    obtain ⟨c, hmem, hname, hsize, hbytes⟩ := hread
    refine ⟨⟨c, (hfind c).mpr ⟨hmem, hname⟩, hbytes⟩, ⟨manifestPath, bytes⟩, ?_, rfl⟩
    exact mem_files.mpr ⟨c, hmem, ⟨hname.symm, hsize, hbytes⟩⟩

section

variable [TomlParser]

/-- The problems found in a manifest. -/
def Manifest.problems (bytes : List UInt8) (paths : List BundlePath) : List BundleProblem :=
  match Manifest.parse bytes paths with
  | .ok _ => []
  | .error found => found

/-- The problems that checking candidates finds in their manifest. -/
def manifestFound (candidates : List Candidate) (limits : BundleLimits) : List BundleProblem :=
  match readManifest candidates limits with
  | some bytes => Manifest.problems bytes (check candidates limits).paths
  | none => []

def missingManifest (candidates : List Candidate) (limits : BundleLimits) : List BundleProblem :=
  if manifestPath ∈ (check candidates limits).paths then [] else [manifestMissing]

theorem checkBundle_eq (candidates : List Candidate) (problems : List BundleProblem) :
    checkBundle candidates problems limits =
      match readManifest candidates limits with
      | some bytes =>
        match Manifest.parse bytes (check candidates limits).paths with
        | .ok manifest =>
          if (problems ++ (check candidates limits).problems).isEmpty then
            .ok ⟨manifest, (check candidates limits).files⟩
          else .error (problems ++ (check candidates limits).problems)
        | .error found => .error (problems ++ (check candidates limits).problems ++ found)
      | none =>
        if okAnd (BundlePath.new manifestFile) (check candidates limits).paths then
          .error (problems ++ (check candidates limits).problems)
        else .error (problems ++ (check candidates limits).problems ++ [manifestMissing]) := rfl

/-- A refusal lists the problems of the files, then those of the manifest. -/
theorem checkBundle_error {candidates : List Candidate} {problems found : List BundleProblem}
    (h : checkBundle candidates problems limits = .error found) :
    found = problems ++ (check candidates limits).problems ++ manifestFound candidates limits ++
      missingManifest candidates limits := by
  have hmissing : ∀ bytes, readManifest candidates limits = some bytes →
      missingManifest candidates limits = [] := by
    intro bytes hbytes
    have hpassed := (Option.filter_eq_some_iff.mp hbytes).2
    rw [manifestPath_new, okAnd, decide_eq_true_iff, List.mem_map] at hpassed
    obtain ⟨file, hfile, hpath⟩ := hpassed
    obtain ⟨c, hc, hpasses⟩ := mem_files.mp hfile
    rw [missingManifest, if_pos]
    rw [mem_paths, ← hpath]
    exact ⟨c, hc, hpasses.path_eq.symm⟩
  rw [checkBundle_eq] at h
  rw [manifestFound]
  cases hread : readManifest candidates limits with
  | some bytes =>
    rw [hread] at h
    rw [hmissing bytes hread, List.append_nil]
    simp only [Manifest.problems] at h ⊢
    cases hparse : Manifest.parse bytes (check candidates limits).paths with
    | ok manifest =>
      simp only [hparse] at h
      split_ifs at h
      rw [← Except.error.inj h, List.append_nil]
    | error refused =>
      simp only [hparse] at h
      exact (Except.error.inj h).symm
  | none =>
    rw [hread] at h
    simp only [manifestPath_new, okAnd, decide_eq_true_eq] at h
    rw [missingManifest, List.append_nil]
    split_ifs at h ⊢ with hpath
    · rw [← Except.error.inj h, List.append_nil]
    · exact (Except.error.inj h).symm

/-- What is checked alike, and read alike when no problem is found, gives the
same bundle or the same problems. -/
theorem checkBundle_congr {candidates others : List Candidate}
    (hmanifest : readManifest candidates limits = readManifest others limits)
    (hproblems : (check candidates limits).problems = (check others limits).problems)
    (hpaths : (check candidates limits).paths = (check others limits).paths)
    (hfiles : (check others limits).problems = [] →
      (check candidates limits).files = (check others limits).files) :
    checkBundle candidates [] limits = checkBundle others [] limits := by
  rw [checkBundle_eq, checkBundle_eq, hmanifest, hproblems, hpaths]
  cases readManifest others limits with
  | none => rfl
  | some bytes =>
    simp only [List.nil_append]
    cases Manifest.parse bytes (check others limits).paths with
    | error found => rfl
    | ok manifest =>
      by_cases hnil : (check others limits).problems = []
      · rw [hfiles hnil]
      · have hsome : (check others limits).problems.isEmpty = false := by simpa using hnil
        simp only [hsome, Bool.false_eq_true, if_false]

namespace Manifest

/-- The manifest names an entry that its grammar reads. -/
def NamesEntry (bytes : List UInt8) (entry : Entry) : Prop :=
  ∃ table format, document bytes = .ok table ∧ format_ table = .ok format ∧
    parsed Entry.parse table "entry" .entryInvalid "\"strategy.py:MyStrategy\"" = .ok entry

/-- The problems of a manifest other than its entry's. -/
def otherProblems (table : TomlTable) : List BundleProblem :=
  (keep (engine_ table)).2 ++ (keep (python_ table)).2 ++ (params_ table).2 ++ (deps_ table).2 ++
    unknownKeys table

theorem problems_eq (bytes : List UInt8) (paths : List BundlePath) : problems bytes paths =
    match document bytes with
    | .error problem => [problem]
    | .ok table =>
      match format_ table with
      | .error problem => [problem]
      | .ok _ => (keep (entry_ table paths)).2 ++ otherProblems table := by
  rw [problems, parse]
  cases document bytes with
  | error problem => rfl
  | ok table =>
    simp only
    cases format_ table with
    | error problem => rfl
    | ok format =>
      simp only [otherProblems, List.append_assoc]
      split
      · rename_i manifest hparse
        split at hparse
        · split_ifs at hparse with hnil
          exact (List.isEmpty_iff.mp hnil).symm
        · cases hparse
      · rename_i found hparse
        split at hparse
        · split_ifs at hparse
          exact (Except.error.inj hparse).symm
        · exact (Except.error.inj hparse).symm

omit [TomlParser] in
theorem entry_problems (table : TomlTable) (paths : List BundlePath) :
    ((keep (entry_ table paths)).2).map BundleProblem.code =
      match parsed Entry.parse table "entry" .entryInvalid "\"strategy.py:MyStrategy\"" with
      | .error problem => [problem.code]
      | .ok entry => if entry.file ∈ paths then [] else [.entryNotFound] := by
  rw [entry_]
  cases parsed Entry.parse table "entry" .entryInvalid "\"strategy.py:MyStrategy\"" with
  | error problem => rfl
  | ok entry =>
    simp only
    split_ifs <;> rfl

/-- The paths matter to a manifest's problems only in whether they hold the
entry's file. -/
theorem codes_same {bytes : List UInt8} {paths others : List BundlePath}
    (h : ∀ entry, NamesEntry bytes entry → (entry.file ∈ paths ↔ entry.file ∈ others)) :
    (problems bytes paths).map BundleProblem.code =
      (problems bytes others).map BundleProblem.code := by
  rw [problems_eq, problems_eq]
  cases hdocument : document bytes with
  | error problem => rfl
  | ok table =>
    simp only
    cases hformat : format_ table with
    | error problem => rfl
    | ok format =>
      simp only [List.map_append, entry_problems]
      cases hentry : parsed Entry.parse table "entry" .entryInvalid
          "\"strategy.py:MyStrategy\"" with
      | error problem => rfl
      | ok entry =>
        have hsame := h entry ⟨table, format, hdocument, hformat, hentry⟩
        simp only [hsame]

/-- An entry whose file only one of two sets of paths holds is a problem more
with the other. -/
theorem codes_differ {bytes : List UInt8} {paths others : List BundlePath} {entry : Entry}
    (h : NamesEntry bytes entry) (hin : entry.file ∈ others) (hout : entry.file ∉ paths) :
    (problems bytes paths).map BundleProblem.code ≠
      (problems bytes others).map BundleProblem.code := by
  obtain ⟨table, format, hdocument, hformat, hentry⟩ := h
  rw [problems_eq, problems_eq]
  simp only [hdocument, hformat, List.map_append, entry_problems, hentry, if_pos hin, if_neg hout]
  simp

end Manifest

end

end QuantForge.Bundle
