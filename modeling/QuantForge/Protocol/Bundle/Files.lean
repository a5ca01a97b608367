import QuantForge.Protocol.Bundle.Path
import Mathlib.Algebra.Group.Nat.Defs
import Mathlib.Data.List.Dedup
import Mathlib.Data.List.Sort

namespace QuantForge.Bundle

/-- The largest file a canonical tar holds: what 11 octal digits count to. -/
def maxTarFileBytes : Nat := 8 ^ 11 - 1

def u64Max : Nat := 2 ^ 64 - 1

def saturating (n : Nat) : Nat := min n u64Max

/-- How large a bundle may be. -/
structure BundleLimits where
  maxFileBytes : UInt64
  maxTotalBytes : UInt64
  maxFiles : UInt32
  deriving DecidableEq

namespace BundleLimits

/-- 1 MiB per file, 8 MiB in all, and 256 files. -/
def default : BundleLimits := ⟨1024 * 1024, 8 * 1024 * 1024, 256⟩

/-- The largest canonical tar a bundle within these limits can take. -/
def maxArchiveBytes (limits : BundleLimits) : Nat :=
  saturating (saturating (saturating (limits.maxFiles.toNat * 1023) +
    limits.maxTotalBytes.toNat) + 1024)

/-- The per-file limit, capped at what a tar header can record. -/
def fileLimit (limits : BundleLimits) : Nat := min limits.maxFileBytes.toNat maxTarFileBytes

end BundleLimits

/-- A file as it arrived, before any rule is checked. -/
structure Candidate where
  path : String
  size : Nat
  contents : Option (List UInt8)
  deriving DecidableEq

def Candidate.read (path : String) (contents : List UInt8) : Candidate :=
  ⟨path, saturating contents.length, some contents⟩

/-- A path's text without regard to case. -/
def folded (path : BundlePath) : List Char := path.text.toList.map Ascii.toLower

/-- What stands before each `/` of a text, after what `before` already holds. -/
def directoriesFrom (before : List Char) : List Char → List (List Char)
  | [] => []
  | c :: cs =>
    if c = '/' then before :: directoriesFrom (before ++ [c]) cs
    else directoriesFrom (before ++ [c]) cs

def directories (text : List Char) : List (List Char) := directoriesFrom [] text

def collision (message : Message) : BundleProblem := ⟨.pathCollision, message⟩

def caseCollision (first path : BundlePath) : BundleProblem :=
  if first = path then collision [.quoted path.text, .text " is listed twice"]
  else collision [.quoted first.text, .text " and ", .quoted path.text, .text
    (" differ only in case, which a case-insensitive filesystem " ++ "cannot hold; rename one")]

/-- The paths by their folded text, the first of each, and a problem for
every other. -/
def caseCollisions (files : List (List Char × BundlePath)) :
    List BundlePath → List (List Char × BundlePath) × List BundleProblem
  | [] => (files, [])
  | path :: rest =>
    match files.lookup (folded path) with
    | some first =>
      let found := caseCollisions files rest
      (found.1, caseCollision first path :: found.2)
    | none => caseCollisions (files ++ [(folded path, path)]) rest

/-- Files whose name another path needs for a directory. -/
def directoryCollisions (files : List (List Char × BundlePath)) (paths : List BundlePath) :
    List BundleProblem :=
  paths.flatMap fun path =>
    (directories (folded path)).filterMap fun directory =>
      (files.lookup directory).map fun file =>
        collision [.quoted file.text, .text " is a file, but ", .quoted path.text,
          .text " needs a directory of that name; rename one"]

structure Spellings where
  first : List (List Char × List Char) := []
  reported : List (List Char) := []
  problems : List BundleProblem := []

def Spellings.add (s : Spellings) (directory : List Char) : Spellings :=
  let key := directory.map Ascii.toLower
  match s.first.lookup key with
  | some first =>
    if first ≠ directory ∧ key ∉ s.reported then
      { s with
        reported := key :: s.reported
        problems := s.problems ++ [collision [.text "the directories ",
          .quoted (String.ofList first), .text " and ", .quoted (String.ofList directory), .text
            (" differ only in case, which a case-insensitive filesystem " ++
              "cannot hold; rename one")]] }
    else s
  | none => { s with first := (key, directory) :: s.first }

/-- Directories whose names differ only in case. -/
def spellingCollisions (paths : List BundlePath) : List BundleProblem :=
  ((paths.flatMap fun path => directories path.text.toList).foldl Spellings.add {}).problems

/-- Paths a case-insensitive filesystem could not hold side by side. -/
def collisions (paths : List BundlePath) : List BundleProblem :=
  let found := caseCollisions [] paths
  found.2 ++ directoryCollisions found.1 paths ++ spellingCollisions paths

/-- What the per-file checks found so far: the files that passed, every path
that passed the path rules, the problems, and the bytes seen. -/
structure Tally where
  files : List BundleFile := []
  valid : List BundlePath := []
  problems : List BundleProblem := []
  total : Nat := 0

def fileTooLarge (limits : BundleLimits) (path : BundlePath) (size : Nat) : BundleProblem :=
  ⟨.fileTooLarge, [.quoted path.text, .text " is ", number size,
    .text " bytes, over the limit of ", number limits.fileLimit, .text " bytes for one file"]⟩

def Tally.add (limits : BundleLimits) (t : Tally) (candidate : Candidate) : Tally :=
  let total := saturating (t.total + candidate.size)
  match BundlePath.new candidate.path with
  | .error problem => { t with total := total, problems := t.problems ++ [problem] }
  | .ok path =>
    let valid := t.valid ++ [path]
    if limits.fileLimit < candidate.size then
      { t with
        total := total
        valid := valid
        problems := t.problems ++ [fileTooLarge limits path candidate.size] }
    else
      match candidate.contents with
      | some contents =>
        { t with total := total, valid := valid, files := t.files ++ [⟨path, contents⟩] }
      | none => { t with total := total, valid := valid }

/-- What the per-file and whole-set checks found. The paths stand in the
order a sorted set iterates them. -/
structure Checked where
  files : List BundleFile
  paths : List BundlePath
  problems : List BundleProblem

def byPath (a b : Candidate) : Prop := Bytes.le (Bytes.utf8 a.path) (Bytes.utf8 b.path) = true

instance : DecidableRel byPath := fun a b =>
  inferInstanceAs (Decidable (Bytes.le (Bytes.utf8 a.path) (Bytes.utf8 b.path) = true))

def tooManyFiles (limits : BundleLimits) (candidates : List Candidate) : List BundleProblem :=
  if limits.maxFiles.toNat < candidates.length then
    [⟨.tooManyFiles, [.text "the bundle holds more than the limit of ",
      number limits.maxFiles.toNat, .text
        " files; leave out what the strategy does not need"]⟩]
  else []

def bundleTooLarge (limits : BundleLimits) (total : Nat) : List BundleProblem :=
  if limits.maxTotalBytes.toNat < total then
    [⟨.bundleTooLarge, [.text "the bundle's files hold ", number total,
      .text " bytes, over the limit of ", number limits.maxTotalBytes.toNat,
      .text " bytes in all"]⟩]
  else []

/-- The per-file checks in path order, then the whole-set checks. -/
def check (candidates : List Candidate) (limits : BundleLimits) : Checked :=
  let sorted := candidates.insertionSort byPath
  let tally := sorted.foldl (Tally.add limits) {}
  { files := tally.files
    paths := tally.valid.dedup
    problems := tally.problems ++ collisions tally.valid ++ tooManyFiles limits sorted ++
      bundleTooLarge limits tally.total }

/-- A candidate that passes the per-file checks as `file`. -/
structure Passes (limits : BundleLimits) (candidate : Candidate) (file : BundleFile) : Prop where
  path_eq : file.path.text = candidate.path
  size_le : candidate.size ≤ limits.fileLimit
  contents_eq : candidate.contents = some file.contents

theorem add_problems (limits : BundleLimits) (t : Tally) (candidate : Candidate) :
    ∃ found, (t.add limits candidate).problems = t.problems ++ found := by
  unfold Tally.add
  cases BundlePath.new candidate.path with
  | error problem => exact ⟨[problem], rfl⟩
  | ok path =>
    simp only
    split_ifs
    · exact ⟨_, rfl⟩
    · cases candidate.contents <;> exact ⟨[], by simp⟩

theorem foldl_problems (limits : BundleLimits) (candidates : List Candidate) (t : Tally)
    (h : (candidates.foldl (Tally.add limits) t).problems = []) : t.problems = [] := by
  induction candidates generalizing t with
  | nil => exact h
  | cons candidate rest ih =>
    obtain ⟨found, hf⟩ := add_problems limits t candidate
    have hnext := ih (t.add limits candidate) h
    rw [hf] at hnext
    exact (List.append_eq_nil_iff.mp hnext).1

theorem add_passes {limits : BundleLimits} {t : Tally} {candidate : Candidate}
    (hread : candidate.contents.isSome = true)
    (h : (t.add limits candidate).problems = []) :
    ∃ file, Passes limits candidate file ∧
      t.add limits candidate =
        { files := t.files ++ [file]
          valid := t.valid ++ [file.path]
          problems := []
          total := saturating (t.total + candidate.size) } := by
  obtain ⟨contents, hcontents⟩ := Option.isSome_iff_exists.mp hread
  unfold Tally.add at h ⊢
  cases hpath : BundlePath.new candidate.path with
  | error problem => simp [hpath] at h
  | ok path =>
    simp only [hpath, hcontents] at h ⊢
    split_ifs at h ⊢ with hsize
    · simp at h
    · have hproblems : t.problems = [] := h
      refine ⟨⟨path, contents⟩, ⟨BundlePath.new_ok.mp hpath, by omega, hcontents⟩, ?_⟩
      rw [hproblems]

/-- Without a problem every candidate passed, in order. -/
theorem foldl_passes {limits : BundleLimits} {candidates : List Candidate} {t : Tally}
    (hread : ∀ candidate ∈ candidates, candidate.contents.isSome = true)
    (h : (candidates.foldl (Tally.add limits) t).problems = []) :
    ∃ files, List.Forall₂ (Passes limits) candidates files ∧
      (candidates.foldl (Tally.add limits) t).files = t.files ++ files ∧
      (candidates.foldl (Tally.add limits) t).valid = t.valid ++ files.map BundleFile.path ∧
      (candidates.foldl (Tally.add limits) t).total =
        candidates.foldl (fun total candidate => saturating (total + candidate.size)) t.total := by
  induction candidates generalizing t with
  | nil => exact ⟨[], .nil, by simp, by simp, rfl⟩
  | cons candidate rest ih =>
    have hfirst : (t.add limits candidate).problems = [] := foldl_problems limits rest _ h
    obtain ⟨file, hpass, hadd⟩ := add_passes (hread candidate (by simp)) hfirst
    obtain ⟨files, hall, hfiles, hvalid, htotal⟩ :=
      ih (fun c hc => hread c (by simp [hc])) h
    refine ⟨file :: files, .cons hpass hall, ?_, ?_, ?_⟩
    · rw [List.foldl_cons, hfiles, hadd, List.append_assoc, List.singleton_append]
    · rw [List.foldl_cons, hvalid, hadd, List.append_assoc, List.singleton_append, List.map_cons]
    · rw [List.foldl_cons, List.foldl_cons, htotal, hadd]

/-- Paths without a case collision are all different. -/
theorem caseCollisions_nodup {files : List (List Char × BundlePath)} {paths : List BundlePath}
    (h : (caseCollisions files paths).2 = []) :
    (paths.map folded).Nodup ∧ ∀ path ∈ paths, files.lookup (folded path) = none := by
  induction paths generalizing files with
  | nil => simp
  | cons path rest ih =>
    simp only [caseCollisions] at h
    cases hl : files.lookup (folded path) with
    | some first => simp [hl] at h
    | none =>
      rw [hl] at h
      obtain ⟨hnodup, hnone⟩ := ih h
      have hmissing : ∀ other ∈ rest,
          files.lookup (folded other) = none ∧ folded other ≠ folded path := by
        intro other ho
        have hlookup := hnone other ho
        rw [List.lookup_append] at hlookup
        have hfirst : files.lookup (folded other) = none := by
          cases hf : files.lookup (folded other) with
          | none => rfl
          | some _ => simp [hf] at hlookup
        refine ⟨hfirst, fun heq => ?_⟩
        simp [heq] at hlookup
      refine ⟨?_, ?_⟩
      · rw [List.map_cons, List.nodup_cons]
        refine ⟨?_, hnodup⟩
        intro hmem
        obtain ⟨other, ho, heq⟩ := List.mem_map.mp hmem
        exact (hmissing other ho).2 heq
      · intro other ho
        rcases List.mem_cons.mp ho with rfl | ho
        · exact hl
        · exact (hmissing other ho).1

theorem collisions_nodup {paths : List BundlePath} (h : collisions paths = []) :
    (paths.map BundlePath.text).Nodup := by
  unfold collisions at h
  simp only [List.append_eq_nil_iff] at h
  have hnodup := (caseCollisions_nodup h.1.1).1
  have hfold : paths.map folded =
      (paths.map BundlePath.text).map fun text => text.toList.map Ascii.toLower := by
    rw [List.map_map]
    rfl
  rw [hfold] at hnodup
  exact List.Nodup.of_map _ hnodup

/-- What a check without problems says about its candidates. -/
structure Sound (limits : BundleLimits) (sorted : List Candidate) (files : List BundleFile) :
    Prop where
  passes : List.Forall₂ (Passes limits) sorted files
  nodup : (files.map fun file => file.path.text).Nodup
  count_le : sorted.length ≤ limits.maxFiles.toNat
  total_le : sorted.foldl (fun total candidate => saturating (total + candidate.size)) 0 ≤
    limits.maxTotalBytes.toNat

theorem check_sound {limits : BundleLimits} {candidates : List Candidate}
    (hread : ∀ candidate ∈ candidates, candidate.contents.isSome = true)
    (h : (check candidates limits).problems = []) :
    Sound limits (candidates.insertionSort byPath) (check candidates limits).files ∧
      (check candidates limits).paths = (check candidates limits).files.map BundleFile.path := by
  have hsorted : ∀ candidate ∈ candidates.insertionSort byPath, candidate.contents.isSome = true :=
    fun candidate hc => hread candidate ((List.mem_insertionSort byPath).mp hc)
  simp only [check, List.append_eq_nil_iff] at h ⊢
  obtain ⟨⟨⟨hproblems, hcollisions⟩, hmany⟩, hlarge⟩ := h
  obtain ⟨files, hall, hfiles, hvalid, htotal⟩ := foldl_passes hsorted hproblems
  have hf : ((candidates.insertionSort byPath).foldl (Tally.add limits) {}).files = files := by
    rw [hfiles]; rfl
  have hv : ((candidates.insertionSort byPath).foldl (Tally.add limits) {}).valid =
      files.map BundleFile.path := by
    rw [hvalid]; rfl
  rw [hv] at hcollisions ⊢
  rw [hf]
  have hnodup : (files.map fun file => file.path.text).Nodup := by
    have := collisions_nodup hcollisions
    rwa [List.map_map] at this
  refine ⟨⟨hall, hnodup, ?_, ?_⟩, ?_⟩
  · unfold tooManyFiles at hmany
    split_ifs at hmany with hcount
    omega
  · unfold bundleTooLarge at hlarge
    split_ifs at hlarge with hsize
    rw [htotal] at hsize
    exact Nat.le_of_not_lt hsize
  · apply List.dedup_eq_self.mpr
    have hmap : files.map (fun file => file.path.text) =
        (files.map BundleFile.path).map BundlePath.text := by rw [List.map_map]; rfl
    rw [hmap] at hnodup
    exact List.Nodup.of_map _ hnodup

end QuantForge.Bundle
