import QuantForge.Model.Externals
import QuantForge.Protocol.Bundle.Manifest
import QuantForge.Protocol.Bundle.Reader

namespace QuantForge

/-- A checked bundle: its manifest and its files, sorted by path. -/
structure Bundle where
  manifest : Bundle.Manifest
  files : List Bundle.BundleFile

namespace Bundle

/-- Whether a path that Rust's `is_ok_and` tests is one of `paths`. -/
def okAnd (path : Except BundleProblem BundlePath) (paths : List BundlePath) : Bool :=
  match path with
  | .ok path => path ∈ paths
  | .error _ => false

def manifestBytes (candidates : List Candidate) : Option (List UInt8) :=
  (candidates.find? fun candidate => candidate.path == manifestFile).bind Candidate.contents

def manifestMissing : BundleProblem :=
  ⟨.manifestMissing, [.text "the bundle has no ", .text manifestFile, .text
    (" at its root; add one naming the entry, the engine, " ++ "and the python version")]⟩

/-- The source's `Bundle::check`: the files, then the manifest among them. A
manifest over the size limit is reported as such, and not parsed. -/
def checkBundle [TomlParser] (candidates : List Candidate) (problems : List BundleProblem)
    (limits : BundleLimits) : Except (List BundleProblem) Bundle :=
  let checked := check candidates limits
  let problems := problems ++ checked.problems
  let manifestPath := BundlePath.new manifestFile
  let hasManifest := okAnd manifestPath checked.paths
  let passed := okAnd manifestPath (checked.files.map BundleFile.path)
  match (manifestBytes candidates).filter fun _ => passed with
  | some bytes =>
    match Manifest.parse bytes checked.paths with
    | .ok manifest =>
      if problems.isEmpty then .ok ⟨manifest, checked.files⟩ else .error problems
    | .error found => .error (problems ++ found)
  | none => if hasManifest then .error problems else .error (problems ++ [manifestMissing])

/-- Builds a bundle from files given in memory, as paths and their bytes, in
any order. -/
def fromFiles [TomlParser] (files : List (String × List UInt8)) (limits : BundleLimits) :
    Except (List BundleProblem) Bundle :=
  checkBundle (candidatesOf files) [] limits

/-- Reads a bundle back from its canonical tar: `none` is a panic. -/
def fromCanonicalTar [TomlParser] (tar : List UInt8) (limits : BundleLimits) :
    Option (Except (List BundleProblem) Bundle) :=
  (read tar limits).map fun found =>
    match found with
    | .error problem => .error [problem]
    | .ok candidates => checkBundle candidates [] limits

def canonicalTar (b : Bundle) : List UInt8 := write b.files

/-- The SHA-256 of the canonical tar: the bundle's name. -/
def codeHash [Sha256] (b : Bundle) : List UInt8 := Sha256.digest b.canonicalTar

/-- A file as the pair that names it. -/
def pairOf (file : BundleFile) : String × List UInt8 := (file.path.text, file.contents)

variable [TomlParser]

/-- What an accepted set of candidates passed. -/
structure Accepted (candidates : List Candidate) (limits : BundleLimits) (b : Bundle) : Prop where
  problems_nil : (check candidates limits).problems = []
  files_eq : b.files = (check candidates limits).files
  manifest_eq : ∃ bytes, manifestBytes candidates = some bytes ∧
    okAnd (BundlePath.new manifestFile) (b.files.map BundleFile.path) = true ∧
    Manifest.parse bytes (check candidates limits).paths = .ok b.manifest

theorem checkBundle_ok {candidates : List Candidate} {limits : BundleLimits} {b : Bundle} :
    checkBundle candidates [] limits = .ok b ↔ Accepted candidates limits b := by
  simp only [checkBundle, List.nil_append]
  constructor
  · intro h
    cases hbytes : (manifestBytes candidates).filter fun _ =>
        okAnd (BundlePath.new manifestFile)
          ((check candidates limits).files.map BundleFile.path) with
    | none =>
      rw [hbytes] at h
      simp only at h
      split_ifs at h
    | some bytes =>
      rw [hbytes] at h
      obtain ⟨hfound, hpassed⟩ := Option.filter_eq_some_iff.mp hbytes
      cases hparse : Manifest.parse bytes (check candidates limits).paths with
      | error found => simp [hparse] at h
      | ok manifest =>
        simp only [hparse] at h
        split_ifs at h with hnil
        have hb : b = ⟨manifest, (check candidates limits).files⟩ := by simpa using h.symm
        subst hb
        exact ⟨by simpa using hnil, rfl, bytes, hfound, hpassed, hparse⟩
  · rintro ⟨hproblems, hfiles, bytes, hfound, hpassed, hparse⟩
    rw [hfiles] at hpassed
    rw [hfound, Option.filter_some, if_pos hpassed]
    simp only [hparse, hproblems, List.isEmpty_nil, if_true, ← hfiles]

end Bundle

end QuantForge
