import QuantForge.Protocol.Bundle.DirFiles

namespace QuantForge.Bundle

variable {root : Entries} {limits : BundleLimits}

def readFile (root : Entries) (limits : BundleLimits) (w : Walk) (file : String × List UInt8) :
    Except Collected Walk :=
  if limits.maxFiles.toNat + 1 ≤ w.collected.candidates.length then
    .error (w.collected.stop root limits)
  else .ok (w.addFile limits file.1 file.2)

/-- The walk over the files alone. -/
def readFiles (root : Entries) (limits : BundleLimits) (files : List (String × List UInt8))
    (w : Walk) : Except Collected Walk := files.foldlM (readFile root limits) w

theorem readFiles_cons (file : String × List UInt8) (files : List (String × List UInt8))
    (w : Walk) : readFiles root limits (file :: files) w =
      readFile root limits w file >>= readFiles root limits files := List.foldlM_cons

/-- What a walk has collected, stopped or not. -/
def collectedOf : Except Collected Walk → Collected
  | .error stopped => stopped
  | .ok w => w.collected

theorem walk_cons (before : String) (entries : Entries) (pending : List (String × Entries))
    (w : Walk) : walk root limits ((before, entries) :: pending) w =
      match (sortedEntries entries).foldlM (Walk.visit root limits before)
        { w with subdirectories := [] } with
      | .error stopped => stopped
      | .ok visited => walk root limits (visited.subdirectories ++ pending) visited := by
  rw [walk]
  split
  · rename_i stopped hvisit
    rw [hvisit]
  · rename_i visited hvisit
    rw [hvisit]

/-- The directories found so far do not matter to the files. -/
theorem readFiles_subdirectories (files : List (String × List UInt8)) (w : Walk)
    (found : List (String × Entries)) :
    readFiles root limits files { w with subdirectories := found } =
      (readFiles root limits files w).map fun v => { v with subdirectories := found } := by
  induction files generalizing w with
  | nil => rfl
  | cons file files ih =>
    rw [readFiles_cons, readFiles_cons, readFile, readFile]
    by_cases hfull : limits.maxFiles.toNat + 1 ≤ w.collected.candidates.length
    · rw [if_pos hfull, if_pos hfull]
      rfl
    · rw [if_neg hfull, if_neg hfull]
      exact ih (w.addFile limits file.1 file.2)

theorem visit_dir (before name : String) (sub : Entries) (w : Walk) :
    Walk.visit root limits before w (name, .dir sub) = .ok (if leftOut name (.dir sub) then w else
      { w with subdirectories := w.subdirectories ++ [(relativePath before name, sub)] }) := by
  rw [Walk.visit]
  by_cases hhidden : isHidden name = true
  · simp [leftOut, hhidden]
  · by_cases hcache : name = pycache
    · simp [leftOut, hcache]
    · simp [leftOut, hhidden, hcache]

theorem visit_file (before name : String) (contents : List UInt8) (w : Walk) :
    Walk.visit root limits before w (name, .file contents) =
      if leftOut name (.file contents) then .ok w
      else readFile root limits w (relativePath before name, contents) := rfl

/-- Visiting a directory's entries reads its own files, and finds its own
directories. -/
theorem visit_files (before : String) {entries : Entries} (h : properAll entries) (w : Walk) :
    entries.foldlM (Walk.visit root limits before) w =
      (readFiles root limits (ownFiles before entries) w).map fun v =>
        { v with subdirectories := w.subdirectories ++ ownDirs before entries } := by
  induction entries generalizing w with
  | nil => simp [ownFiles, ownDirs, readFiles, Except.map, pure, Except.pure]
  | cons entry entries ih =>
    obtain ⟨name, node⟩ := entry
    rw [List.foldlM_cons, ownFiles, ownDirs, List.filterMap_cons, List.filterMap_cons, ← ownFiles,
      ← ownDirs]
    cases node with
    | dir sub =>
      rw [visit_dir]
      simp only
      by_cases hout : leftOut name (.dir sub) = true
      · rw [if_pos hout, if_pos hout]
        exact ih h.2 w
      · rw [if_neg hout, if_neg hout]
        have hrest := ih h.2 { w with
          subdirectories := w.subdirectories ++ [(relativePath before name, sub)] }
        rw [readFiles_subdirectories] at hrest
        simp only [bind, Except.bind]
        rw [hrest]
        cases readFiles root limits (ownFiles before entries) w with
        | error stopped => rfl
        | ok v => simp [Except.map]
    | file contents =>
      rw [visit_file]
      simp only
      by_cases hout : leftOut name (.file contents) = true
      · rw [if_pos hout, if_pos hout]
        exact ih h.2 w
      · rw [if_neg hout, if_neg hout]
        rw [readFiles_cons]
        cases hread : readFile root limits w (relativePath before name, contents) with
        | error stopped => rfl
        | ok v =>
          have hkept : v.subdirectories = w.subdirectories := by
            rw [readFile] at hread
            split_ifs at hread
            cases hread
            rfl
          have hrest := ih h.2 v
          rw [hkept] at hrest
          exact hrest
    | symlink => exact False.elim h.1
    | special => exact False.elim h.1

/-- A walk reads the files of its directories, in its order. -/
theorem walk_files {pending : List (String × Entries)}
    (h : ∀ directory ∈ pending, ProperDir directory.2) (w : Walk) :
    walk root limits pending w = collectedOf (readFiles root limits (walkOrder pending) w) := by
  induction pending using walkOrder.induct generalizing w with
  | case1 =>
    rw [walk, walkOrder]
    rfl
  | case2 before entries pending ih =>
    obtain ⟨hfirst, hothers⟩ := List.forall_mem_cons.mp h
    have hsorted := hfirst.sorted
    have hpending : ∀ directory ∈ ownDirs before (sortedEntries entries) ++ pending,
        ProperDir directory.2 := by
      intro directory hdirectory
      rcases List.mem_append.mp hdirectory with hown | hother
      · exact ProperDir.ownDirs hsorted.nodes before directory hown
      · exact hothers directory hother
    rw [walk_cons, visit_files before hsorted.nodes, readFiles_subdirectories, walkOrder]
    have hsplit : readFiles root limits (ownFiles before (sortedEntries entries) ++
        walkOrder (ownDirs before (sortedEntries entries) ++ pending)) w =
        readFiles root limits (ownFiles before (sortedEntries entries)) w >>=
          readFiles root limits (walkOrder (ownDirs before (sortedEntries entries) ++ pending)) := by
      rw [readFiles, List.foldlM_append]
      rfl
    rw [hsplit]
    cases hread : readFiles root limits (ownFiles before (sortedEntries entries)) w with
    | error stopped => rfl
    | ok v =>
      simp only [Except.map, bind, Except.bind, List.nil_append]
      rw [ih hpending, readFiles_subdirectories]
      cases readFiles root limits
          (walkOrder (ownDirs before (sortedEntries entries) ++ pending)) v <;> rfl

/-- A walk that has room for the files reads them all, and one that has not
stops once it is full. -/
theorem readFiles_eq (files : List (String × List UInt8)) {w : Walk}
    (h : w.collected.candidates.length ≤ limits.maxFiles.toNat + 1) :
    readFiles root limits files w =
      if w.collected.candidates.length + files.length ≤ limits.maxFiles.toNat + 1 then
        .ok (files.foldl (fun w file => w.addFile limits file.1 file.2) w)
      else .error (((files.take (limits.maxFiles.toNat + 1 - w.collected.candidates.length)).foldl
        (fun w file => w.addFile limits file.1 file.2) w).collected.stop root limits) := by
  induction files generalizing w with
  | nil =>
    rw [if_pos (by simpa using h)]
    rfl
  | cons file files ih =>
    have hlen : (w.addFile limits file.1 file.2).collected.candidates.length =
        w.collected.candidates.length + 1 := by simp [Walk.addFile]
    rw [readFiles_cons, readFile]
    by_cases hfull : limits.maxFiles.toNat + 1 ≤ w.collected.candidates.length
    · have hzero : limits.maxFiles.toNat + 1 - w.collected.candidates.length = 0 := by omega
      rw [if_pos hfull, if_neg (by rw [List.length_cons]; omega), hzero]
      rfl
    · have hrest := ih (w := w.addFile limits file.1 file.2) (by omega)
      have hroom : limits.maxFiles.toNat + 1 - w.collected.candidates.length =
          limits.maxFiles.toNat + 1 - (w.addFile limits file.1 file.2).collected.candidates.length +
            1 := by omega
      rw [if_neg hfull, hroom, List.take_succ_cons, List.foldl_cons, List.foldl_cons,
        List.length_cons]
      refine hrest.trans ?_
      rw [hlen]
      congr 1
      apply propext
      omega

/-- The files of a bundle's directory, in the order of the walk. -/
def filesOf (root : Entries) : List (String × List UInt8) := walkOrder [("", root)]

/-- What a walk over `files` reads. -/
def readAll (limits : BundleLimits) (files : List (String × List UInt8)) : Collected :=
  (files.foldl (fun w file => w.addFile limits file.1 file.2) Walk.start).collected

/-- The files of a directory are all read, or one more than a bundle may hold
and the manifest. -/
theorem collect_eq (h : ProperDir root) : collect root limits =
    if (filesOf root).length ≤ limits.maxFiles.toNat + 1 then readAll limits (filesOf root)
    else (readAll limits ((filesOf root).take (limits.maxFiles.toNat + 1))).stop root limits := by
  have hstart : Walk.start.collected.candidates.length = 0 := rfl
  have hpending : ∀ directory ∈ [("", root)], ProperDir directory.2 := by simpa using h
  rw [collect, walk_files hpending, readFiles_eq _ (by rw [hstart]; omega), hstart, Nat.zero_add,
    ← filesOf, Nat.sub_zero]
  split_ifs <;> rfl

end QuantForge.Bundle
