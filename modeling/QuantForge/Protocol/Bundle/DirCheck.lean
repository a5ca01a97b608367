import QuantForge.Protocol.Bundle.Canonical
import QuantForge.Protocol.Bundle.DirWalk

namespace QuantForge.Bundle

/-- A collected file stands for the file itself: its path and size are the
file's, its contents are the file's or were not read, and the manifest's were
read if its size allows. -/
structure Stands (limits : BundleLimits) (c file : Candidate) : Prop where
  path_eq : c.path = file.path
  size_eq : c.size = file.size
  contents_eq : c.contents = file.contents ∨ c.contents = none
  manifest_eq : file.path = manifestFile → file.size ≤ limits.fileLimit → c.contents = file.contents

/-- Every file small enough was read. -/
def Read (limits : BundleLimits) (c file : Candidate) : Prop :=
  file.size ≤ limits.fileLimit → c.contents = file.contents

theorem fileLimit_lt (limits : BundleLimits) : limits.fileLimit < u64Max := by
  have hmin : limits.fileLimit ≤ maxTarFileBytes := Nat.min_le_right _ _
  have htar : maxTarFileBytes < u64Max := by decide
  exact lt_of_le_of_lt hmin htar

/-- A file within the limit is read to its end. -/
theorem readAtMost_all {contents : List UInt8} {limits : BundleLimits}
    (h : saturating contents.length ≤ limits.fileLimit) :
    readAtMost contents limits.fileLimit = contents := by
  have hlimit := fileLimit_lt limits
  have hmax : saturating (limits.fileLimit + 1) = limits.fileLimit + 1 :=
    Nat.min_eq_left hlimit
  rw [saturating] at h
  rw [readAtMost, hmax]
  apply List.take_of_length_le
  omega

/-- What a file adds to a walk. -/
theorem addFile_stands (limits : BundleLimits) (w : Walk) (path : String) (contents : List UInt8) :
    ∃ c, (w.addFile limits path contents).collected.candidates = w.collected.candidates ++ [c] ∧
      Stands limits c (Candidate.read path contents) ∧
      ((w.addFile limits path contents).total ≤ limits.maxTotalBytes.toNat →
        Read limits c (Candidate.read path contents)) := by
  by_cases hfits : saturating contents.length ≤ limits.fileLimit ∧ (path = manifestFile ∨
      saturating (w.total + saturating contents.length) ≤ limits.maxTotalBytes.toNat)
  · refine ⟨Candidate.read path contents, ?_, ⟨rfl, rfl, .inl rfl, fun _ _ => rfl⟩, fun _ _ => rfl⟩
    rw [Walk.addFile, if_pos hfits, readAtMost_all hfits.1]
  · refine ⟨⟨path, saturating contents.length, none⟩, ?_, ⟨rfl, rfl, .inr rfl, ?_⟩, ?_⟩
    · rw [Walk.addFile, if_neg hfits]
    · intro hpath hsize
      exact absurd ⟨hsize, .inl hpath⟩ hfits
    · intro htotal hsize
      exact absurd ⟨hsize, .inr htotal⟩ hfits

/-- The bytes of files after those already seen, as far as a counter goes. -/
def totalFrom (seen : Nat) (candidates : List Candidate) : Nat :=
  candidates.foldl (fun total candidate => saturating (total + candidate.size)) seen

theorem le_totalFrom (candidates : List Candidate) {seen : Nat} (h : seen ≤ u64Max) :
    seen ≤ totalFrom seen candidates := by
  induction candidates generalizing seen with
  | nil => exact le_rfl
  | cons candidate rest ih =>
    have hnext : saturating (seen + candidate.size) ≤ u64Max := Nat.min_le_right _ _
    have hstep : seen ≤ saturating (seen + candidate.size) := by
      rw [saturating]
      omega
    exact hstep.trans (ih hnext)

/-- What a walk over files collects. -/
theorem foldl_addFile (limits : BundleLimits) (files : List (String × List UInt8)) (w : Walk)
    (hw : w.total ≤ u64Max) : ∃ cs,
      (files.foldl (fun w file => w.addFile limits file.1 file.2) w).collected =
        ⟨w.collected.candidates ++ cs, w.collected.problems⟩ ∧
      List.Forall₂ (Stands limits) cs (candidatesOf files) ∧
      (totalFrom w.total (candidatesOf files) ≤ limits.maxTotalBytes.toNat →
        List.Forall₂ (Read limits) cs (candidatesOf files)) := by
  induction files generalizing w with
  | nil => exact ⟨[], by simp, .nil, fun _ => .nil⟩
  | cons file files ih =>
    obtain ⟨c, hc, hstands, hread⟩ := addFile_stands limits w file.1 file.2
    have htotal : (w.addFile limits file.1 file.2).total =
        saturating (w.total + (Candidate.read file.1 file.2).size) := rfl
    have hnext : (w.addFile limits file.1 file.2).total ≤ u64Max := by
      rw [htotal]
      exact Nat.min_le_right _ _
    obtain ⟨cs, hcs, hall, hreads⟩ := ih (w.addFile limits file.1 file.2) hnext
    refine ⟨c :: cs, ?_, .cons hstands hall, ?_⟩
    · rw [List.foldl_cons, hcs, hc, List.append_assoc]
      rfl
    · intro hbound
      have hrest : totalFrom (w.addFile limits file.1 file.2).total (candidatesOf files) ≤
          limits.maxTotalBytes.toNat := hbound
      exact .cons (hread ((le_totalFrom _ hnext).trans hrest)) (hreads hrest)

theorem readAll_stands (limits : BundleLimits) (files : List (String × List UInt8)) :
    (readAll limits files).problems = [] ∧
      List.Forall₂ (Stands limits) (readAll limits files).candidates (candidatesOf files) ∧
      (totalFrom 0 (candidatesOf files) ≤ limits.maxTotalBytes.toNat →
        List.Forall₂ (Read limits) (readAll limits files).candidates (candidatesOf files)) := by
  obtain ⟨cs, hcs, hall, hreads⟩ := foldl_addFile limits files Walk.start (Nat.zero_le _)
  rw [readAll, hcs]
  exact ⟨rfl, hall, hreads⟩

/-- Candidates of the same paths are sorted alike. -/
theorem forall₂_sorted {R : Candidate → Candidate → Prop} {cs files : List Candidate}
    (hpath : ∀ c file, R c file → c.path = file.path) (h : List.Forall₂ R cs files) :
    List.Forall₂ R (cs.insertionSort byPath) (files.insertionSort byPath) := by
  have hinsert : ∀ {c file : Candidate}, R c file → ∀ {xs ys : List Candidate},
      List.Forall₂ R xs ys → List.Forall₂ R (xs.orderedInsert byPath c)
        (ys.orderedInsert byPath file) := by
    intro c file hc xs ys hall
    induction hall with
    | nil => exact .cons hc .nil
    | @cons x y xs ys hxy hrest ih =>
      have hsame : byPath c x ↔ byPath file y := by
        rw [byPath, byPath, hpath c file hc, hpath x y hxy]
      rw [List.orderedInsert, List.orderedInsert]
      by_cases hle : byPath c x
      · rw [if_pos hle, if_pos (hsame.mp hle)]
        exact .cons hc (.cons hxy hrest)
      · rw [if_neg hle, if_neg fun hfile => hle (hsame.mpr hfile)]
        exact .cons hxy ih
  induction h with
  | nil => exact .nil
  | cons hc _ ih => exact hinsert hc ih

/-- Tallies that differ in the files read only. -/
structure SameTally (t u : Tally) : Prop where
  valid_eq : t.valid = u.valid
  problems_eq : t.problems = u.problems
  total_eq : t.total = u.total

theorem add_same {limits : BundleLimits} {t u : Tally} {c file : Candidate} (h : SameTally t u)
    (hpath : c.path = file.path) (hsize : c.size = file.size) :
    SameTally (t.add limits c) (u.add limits file) := by
  obtain ⟨hvalid, hproblems, htotal⟩ := h
  unfold Tally.add
  rw [hpath, hsize, hvalid, hproblems, htotal]
  cases BundlePath.new file.path with
  | error problem => exact ⟨rfl, rfl, rfl⟩
  | ok path =>
    simp only
    split_ifs
    · exact ⟨rfl, rfl, rfl⟩
    · cases c.contents <;> cases file.contents <;> exact ⟨rfl, rfl, rfl⟩

theorem foldl_same {limits : BundleLimits} {cs files : List Candidate}
    (h : List.Forall₂ (Stands limits) cs files) {t u : Tally} (htu : SameTally t u) :
    SameTally (cs.foldl (Tally.add limits) t) (files.foldl (Tally.add limits) u) := by
  induction h generalizing t u with
  | nil => exact htu
  | cons hc _ ih => exact ih (add_same htu hc.path_eq hc.size_eq)

/-- The checks do not look at contents, so what stands for files has their
problems and paths. -/
theorem check_stands {limits : BundleLimits} {cs files : List Candidate}
    (h : List.Forall₂ (Stands limits) cs files) :
    (check cs limits).problems = (check files limits).problems ∧
      (check cs limits).paths = (check files limits).paths := by
  have hsorted := forall₂_sorted (fun c file hc => hc.path_eq) h
  obtain ⟨hvalid, hproblems, htotal⟩ := foldl_same hsorted (t := {}) (u := {}) ⟨rfl, rfl, rfl⟩
  have hmany : tooManyFiles limits (cs.insertionSort byPath) =
      tooManyFiles limits (files.insertionSort byPath) := by
    rw [tooManyFiles, tooManyFiles, hsorted.length_eq]
  simp only [check]
  rw [hvalid, hproblems, htotal, hmany]
  exact ⟨rfl, rfl⟩

theorem add_read {limits : BundleLimits} (t : Tally) {c file : Candidate}
    (h : Stands limits c file) (hread : Read limits c file) :
    t.add limits c = t.add limits file := by
  unfold Tally.add
  rw [h.path_eq, h.size_eq]
  cases BundlePath.new file.path with
  | error problem => rfl
  | ok path =>
    simp only
    split_ifs with hsize
    · rfl
    · rw [hread (Nat.le_of_not_lt hsize)]

/-- Files that are read pass the checks as themselves. -/
theorem check_read {limits : BundleLimits} {cs files : List Candidate}
    (h : List.Forall₂ (fun c file => Stands limits c file ∧ Read limits c file) cs files) :
    check cs limits = check files limits := by
  have hsorted := forall₂_sorted (fun c file hc => hc.1.path_eq) h
  have hfold : ∀ {xs ys : List Candidate},
      List.Forall₂ (fun c file => Stands limits c file ∧ Read limits c file) xs ys →
        ∀ t : Tally, xs.foldl (Tally.add limits) t = ys.foldl (Tally.add limits) t := by
    intro xs ys hall
    induction hall with
    | nil => exact fun t => rfl
    | cons hc _ ih =>
      intro t
      rw [List.foldl_cons, List.foldl_cons, add_read t hc.1 hc.2, ih]
  have hmany : tooManyFiles limits (cs.insertionSort byPath) =
      tooManyFiles limits (files.insertionSort byPath) := by
    rw [tooManyFiles, tooManyFiles, hsorted.length_eq]
  simp only [check]
  rw [hfold hsorted, hmany]

theorem add_paths {limits : BundleLimits} {t : Tally} {c : Candidate} {path : BundlePath} :
    path ∈ (t.add limits c).valid ↔ path ∈ t.valid ∨ c.path = path.text := by
  have hnew := @BundlePath.new_ok c.path path
  unfold Tally.add
  cases hpath : BundlePath.new c.path with
  | error problem =>
    rw [hpath] at hnew
    have hne : ¬path.text = c.path := fun hsame => by simpa using hnew.mpr hsame
    simp only
    constructor
    · exact .inl
    · intro h
      rcases h with h | h
      · exact h
      · exact absurd h.symm hne
  | ok found =>
    rw [hpath, Except.ok.injEq] at hnew
    have hvalid : path ∈ t.valid ++ [found] ↔ path ∈ t.valid ∨ c.path = path.text := by
      rw [List.mem_append, List.mem_singleton, eq_comm (a := path), hnew, eq_comm (a := path.text)]
    simp only
    split_ifs
    · exact hvalid
    · cases c.contents <;> exact hvalid

theorem add_files {limits : BundleLimits} {t : Tally} {c : Candidate} {file : BundleFile} :
    file ∈ (t.add limits c).files ↔ file ∈ t.files ∨ Passes limits c file := by
  have hnew := @BundlePath.new_ok c.path file.path
  have hpasses : Passes limits c file ↔ file.path.text = c.path ∧ c.size ≤ limits.fileLimit ∧
      c.contents = some file.contents :=
    ⟨fun h => ⟨h.1, h.2, h.3⟩, fun h => ⟨h.1, h.2.1, h.2.2⟩⟩
  unfold Tally.add
  rw [hpasses]
  cases hpath : BundlePath.new c.path with
  | error problem =>
    rw [hpath] at hnew
    have hne : ¬file.path.text = c.path := fun hsame => by simpa using hnew.mpr hsame
    simp [hne]
  | ok found =>
    rw [hpath, Except.ok.injEq] at hnew
    simp only
    split_ifs with hsize
    · have hle : ¬c.size ≤ limits.fileLimit := by omega
      simp [hle]
    · have hle : c.size ≤ limits.fileLimit := by omega
      cases c.contents with
      | none => simp
      | some contents =>
        have hfile : file = ⟨found, contents⟩ ↔ found = file.path ∧ contents = file.contents := by
          obtain ⟨path, data⟩ := file
          simp only [BundleFile.mk.injEq]
          rw [eq_comm, eq_comm (a := data)]
        simp only [List.mem_append, List.mem_singleton, Option.some.injEq, hle, true_and]
        rw [hfile, hnew]

/-- The paths of the files that pass the path rules. -/
theorem mem_paths {limits : BundleLimits} {candidates : List Candidate} {path : BundlePath} :
    path ∈ (check candidates limits).paths ↔ ∃ c ∈ candidates, c.path = path.text := by
  have hfold : ∀ (cs : List Candidate) (t : Tally), path ∈ (cs.foldl (Tally.add limits) t).valid ↔
      path ∈ t.valid ∨ ∃ c ∈ cs, c.path = path.text := by
    intro cs
    induction cs with
    | nil => simp
    | cons c cs ih =>
      intro t
      rw [List.foldl_cons, ih, add_paths, or_assoc]
      simp
  simp only [check, List.mem_dedup]
  rw [hfold]
  simp [List.mem_insertionSort]

/-- The files that pass the per-file checks. -/
theorem mem_files {limits : BundleLimits} {candidates : List Candidate} {file : BundleFile} :
    file ∈ (check candidates limits).files ↔ ∃ c ∈ candidates, Passes limits c file := by
  have hfold : ∀ (cs : List Candidate) (t : Tally), file ∈ (cs.foldl (Tally.add limits) t).files ↔
      file ∈ t.files ∨ ∃ c ∈ cs, Passes limits c file := by
    intro cs
    induction cs with
    | nil => simp
    | cons c cs ih =>
      intro t
      rw [List.foldl_cons, ih, add_files, or_assoc]
      simp
  simp only [check]
  rw [hfold]
  simp [List.mem_insertionSort]

end QuantForge.Bundle
