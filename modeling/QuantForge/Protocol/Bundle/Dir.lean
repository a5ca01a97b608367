import QuantForge.Framework.Reader
import QuantForge.Protocol.Bundle

namespace QuantForge.Bundle

/-- What an entry of a directory is. -/
inductive Node
  | file (contents : List UInt8)
  | dir (entries : List (String × Node))
  | symlink
  | special

/-- The entries of a directory, by their names. -/
abbrev Entries := List (String × Node)

mutual

/-- How many directories a node is and holds. -/
def Node.dirs : Node → Nat
  | .dir entries => dirsOf entries + 1
  | _ => 0

def dirsOf : List (String × Node) → Nat
  | [] => 0
  | (_, node) :: entries => node.dirs + dirsOf entries

end

/-- The files found below a bundle's root, and the entries that cannot be in a
bundle at all. -/
structure Collected where
  candidates : List Candidate
  problems : List BundleProblem

/-- A walk so far: what it collected, the bytes it saw, and the directories
found in the one it is in, with their paths. -/
structure Walk where
  collected : Collected
  total : Nat
  subdirectories : List (String × Entries)

def Walk.start : Walk := ⟨⟨[], []⟩, 0, []⟩

def isHidden (name : String) : Bool := ['.'].isPrefixOf name.toList

/-- Python's cache, which is never part of a bundle. -/
def pycache : String := "__pycache__"

def relativePath (before name : String) : String :=
  if before.isEmpty then name else before ++ "/" ++ name

def byName (a b : String × Node) : Prop := Bytes.le (Bytes.utf8 a.1) (Bytes.utf8 b.1) = true

instance : DecidableRel byName := fun a b =>
  inferInstanceAs (Decidable (Bytes.le (Bytes.utf8 a.1) (Bytes.utf8 b.1) = true))

/-- The entries of a directory sorted by name bytes. -/
def sortedEntries (entries : Entries) : Entries := entries.insertionSort byName

def notRegular (relative what : String) : BundleProblem :=
  ⟨.notARegularFile, [.quoted relative, .text " is ", .text what,
    .text ("; a bundle holds regular files only, so copy the file in or " ++ "leave it out")]⟩

/-- At most `limit` + 1 bytes of a file. -/
def readAtMost (contents : List UInt8) (limit : Nat) : List UInt8 :=
  contents.take (saturating (limit + 1))

section

variable (root : Entries) (limits : BundleLimits)

/-- What the walk answers once it has found more files than a bundle may
hold. The root manifest is still collected. -/
def Collected.stop (c : Collected) : Collected :=
  if c.candidates.any fun candidate => candidate.path == manifestFile then c
  else
    match root.lookup manifestFile with
    | some (.file contents) =>
      let size := saturating contents.length
      let read := if size ≤ limits.fileLimit then some (readAtMost contents limits.fileLimit)
        else none
      { c with candidates := c.candidates ++ [⟨manifestFile, size, read⟩] }
    | _ => c

/-- Adds a file, read only when it fits the limits. The manifest is read
whatever the total. -/
def Walk.addFile (w : Walk) (relative : String) (contents : List UInt8) : Walk :=
  let size := saturating contents.length
  let fits := size ≤ limits.fileLimit ∧
    (relative = manifestFile ∨ saturating (w.total + size) ≤ limits.maxTotalBytes.toNat)
  let candidate := if fits then Candidate.read relative (readAtMost contents limits.fileLimit)
    else ⟨relative, size, none⟩
  { w with
    collected := { w.collected with candidates := w.collected.candidates ++ [candidate] }
    total := saturating (w.total + size) }

def Walk.addProblem (w : Walk) (problem : BundleProblem) : Walk :=
  { w with collected := { w.collected with problems := w.collected.problems ++ [problem] } }

/-- One entry of the directory at `before`. The walk stops at a file past the
limit, which is an `.error` here. -/
def Walk.visit (before : String) (w : Walk) : String × Node → Except Collected Walk
  | (name, node) =>
    if isHidden name then .ok w
    else
      let relative := relativePath before name
      match node with
      | .symlink => .ok (w.addProblem (notRegular relative "a symlink or junction"))
      | .dir entries =>
        .ok (if name ≠ pycache then
          { w with subdirectories := w.subdirectories ++ [(relative, entries)] } else w)
      | .special => .ok (w.addProblem (notRegular relative "not a regular file"))
      | .file contents =>
        if limits.maxFiles.toNat + 1 ≤ w.collected.candidates.length then
          .error (w.collected.stop root limits)
        else .ok (w.addFile limits relative contents)

/-- The directories the walk still has to visit. -/
def pendingDirs (pending : List (String × Entries)) : Nat :=
  (pending.map fun directory => dirsOf directory.2 + 1).sum

theorem dirsOf_sum (entries : Entries) : dirsOf entries = (entries.map fun e => e.2.dirs).sum := by
  induction entries with
  | nil => rfl
  | cons entry entries ih => rw [dirsOf, ih, List.map_cons, List.sum_cons]

theorem dirsOf_sorted (entries : Entries) : dirsOf (sortedEntries entries) = dirsOf entries := by
  rw [dirsOf_sum, dirsOf_sum]
  exact ((List.perm_insertionSort byName entries).map _).sum_nat

/-- A visit finds no more directories than the entries hold. -/
theorem visit_dirs {before : String} {entries : Entries} {w v : Walk}
    (h : entries.foldlM (Walk.visit root limits before) w = .ok v) :
    pendingDirs v.subdirectories ≤ pendingDirs w.subdirectories + dirsOf entries := by
  induction entries generalizing w with
  | nil =>
    cases h
    exact Nat.le_add_right _ _
  | cons entry entries ih =>
    obtain ⟨name, node⟩ := entry
    rw [List.foldlM_cons, bind_ok] at h
    obtain ⟨next, hnext, hrest⟩ := h
    have hlater := ih hrest
    have hstep : pendingDirs next.subdirectories ≤
        pendingDirs w.subdirectories + node.dirs := by
      by_cases hhidden : isHidden name = true
      · rw [Walk.visit, if_pos hhidden] at hnext
        cases hnext
        exact Nat.le_add_right _ _
      · rw [Walk.visit, if_neg hhidden] at hnext
        cases node with
        | symlink =>
          cases hnext
          exact Nat.le_add_right _ _
        | special =>
          cases hnext
          exact Nat.le_add_right _ _
        | file contents =>
          simp only at hnext
          split_ifs at hnext
          cases hnext
          exact Nat.le_add_right _ _
        | dir sub =>
          cases hnext
          by_cases hcache : name ≠ pycache
          · rw [if_pos hcache]
            simp [pendingDirs, Node.dirs]
          · rw [if_neg hcache]
            exact Nat.le_add_right _ _
    rw [dirsOf]
    omega

/-- Visits the directories still to visit, the first of them first. -/
def walk : List (String × Entries) → Walk → Collected
  | [], w => w.collected
  | (before, entries) :: pending, w =>
    match _h : (sortedEntries entries).foldlM (Walk.visit root limits before)
        { w with subdirectories := [] } with
    | .error stopped => stopped
    -- pushed in reverse, so popped in name order
    | .ok visited => walk (visited.subdirectories ++ pending) visited
  termination_by pending => pendingDirs pending
  decreasing_by
    have hfound := visit_dirs root limits _h
    rw [dirsOf_sorted] at hfound
    simp only [pendingDirs, List.map_nil, List.sum_nil, List.map_append, List.map_cons,
      List.sum_append, List.sum_cons] at hfound ⊢
    omega

/-- Every regular file below `root`, except entries whose name starts with `.`
and directories named `__pycache__`. -/
def collect : Collected := walk root limits [("", root)] Walk.start

/-- Collects a bundle from a directory. -/
def fromDir [TomlParser] : Except (List BundleProblem) Bundle :=
  let collected := collect root limits
  checkBundle collected.candidates collected.problems limits

end

end QuantForge.Bundle
