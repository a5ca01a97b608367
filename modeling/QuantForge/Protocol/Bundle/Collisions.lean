import QuantForge.Protocol.Bundle.Files

namespace QuantForge.Bundle

theorem caseCollisions_nil {files : List (List Char × BundlePath)} {paths : List BundlePath} :
    (caseCollisions files paths).2 = [] ↔
      (paths.map folded).Nodup ∧ ∀ path ∈ paths, files.lookup (folded path) = none := by
  constructor
  · exact caseCollisions_nodup
  · intro h
    induction paths generalizing files with
    | nil => rfl
    | cons path rest ih =>
      obtain ⟨hnodup, hnone⟩ := h
      rw [List.map_cons, List.nodup_cons] at hnodup
      obtain ⟨hfirst, hrest⟩ := List.forall_mem_cons.mp hnone
      rw [caseCollisions, hfirst]
      apply ih
      refine ⟨hnodup.2, ?_⟩
      intro other hother
      have hne : folded other ≠ folded path := by
        intro hsame
        apply hnodup.1
        rw [← hsame]
        exact List.mem_map.mpr ⟨other, hother, rfl⟩
      have hbeq : (folded other == folded path) = false := by simpa using hne
      rw [List.lookup_append, hrest other hother, List.lookup_cons, hbeq]
      rfl

/-- The names the files are kept under. -/
theorem caseCollisions_lookup {files : List (List Char × BundlePath)} {paths : List BundlePath}
    {name : List Char} : ((caseCollisions files paths).1.lookup name).isSome = true ↔
      (files.lookup name).isSome = true ∨ name ∈ paths.map folded := by
  induction paths generalizing files with
  | nil => simp [caseCollisions]
  | cons path rest ih =>
    rw [caseCollisions, List.map_cons, List.mem_cons]
    cases hlookup : files.lookup (folded path) with
    | some first =>
      simp only
      rw [ih]
      by_cases hname : name = folded path
      · rw [hname, hlookup]
        simp
      · simp [hname]
    | none =>
      simp only
      rw [ih, List.lookup_append]
      by_cases hname : name = folded path
      · rw [hname, hlookup]
        simp
      · have hbeq : (name == folded path) = false := by simpa using hname
        rw [List.lookup_cons, hbeq]
        simp [hname]

theorem directoryCollisions_nil {files : List (List Char × BundlePath)} {paths : List BundlePath} :
    directoryCollisions files paths = [] ↔
      ∀ path ∈ paths, ∀ directory ∈ directories (folded path), files.lookup directory = none := by
  simp [directoryCollisions, List.flatMap_eq_nil_iff, List.filterMap_eq_nil_iff]

/-- Directories of one folded name are spelled alike. -/
def Alike (ds : List (List Char)) : Prop :=
  ∀ d ∈ ds, ∀ e ∈ ds, d.map Ascii.toLower = e.map Ascii.toLower → d = e

theorem alike_cons {d : List Char} {ds : List (List Char)} : Alike (d :: ds) ↔
    Alike ds ∧ ∀ e ∈ ds, e.map Ascii.toLower = d.map Ascii.toLower → d = e := by
  constructor
  · intro h
    refine ⟨fun a ha b hb => h a (List.mem_cons_of_mem d ha) b (List.mem_cons_of_mem d hb), ?_⟩
    intro e he hfold
    exact h d (by simp) e (List.mem_cons_of_mem d he) hfold.symm
  · intro h
    obtain ⟨halike, hfirst⟩ := h
    intro a ha b hb hfold
    rcases List.mem_cons.mp ha with had | ha <;> rcases List.mem_cons.mp hb with hbd | hb
    · rw [had, hbd]
    · rw [had] at hfold ⊢
      exact hfirst b hb hfold.symm
    · rw [hbd] at hfold ⊢
      exact (hfirst a ha hfold).symm
    · exact halike a ha b hb hfold

namespace Spellings

/-- A problem found stays. -/
theorem foldl_problems (ds : List (List Char)) (s : Spellings) :
    s.problems <+: (ds.foldl Spellings.add s).problems := by
  induction ds generalizing s with
  | nil => exact List.prefix_rfl
  | cons d ds ih =>
    have hadd : s.problems <+: (s.add d).problems := by
      unfold Spellings.add
      simp only
      split
      · split_ifs
        · exact List.prefix_append _ _
        · exact List.prefix_rfl
      · exact List.prefix_rfl
    exact hadd.trans (ih (s.add d))

/-- The first spelling of a directory's name, if it has one, is its own. -/
def Keeps (s : Spellings) (d : List Char) : Prop :=
  ∀ first, s.first.lookup (d.map Ascii.toLower) = some first → first = d

/-- No problem is found exactly when directories of one folded name are
spelled alike, also as the first of that name was. -/
theorem foldl_nil (ds : List (List Char)) (s : Spellings) (hs : s.problems = [])
    (hreported : s.reported = []) : (ds.foldl Spellings.add s).problems = [] ↔
      Alike ds ∧ ∀ d ∈ ds, s.Keeps d := by
  induction ds generalizing s with
  | nil => simp [hs, Alike]
  | cons d ds ih =>
    rw [List.foldl_cons, List.forall_mem_cons, alike_cons]
    cases hlookup : s.first.lookup (d.map Ascii.toLower) with
    | some first =>
      by_cases hsame : first = d
      · have hadd : s.add d = s := by
          simp only [Spellings.add, hlookup, hsame, ne_eq, not_true_eq_false, false_and, if_false]
        rw [hadd, ih s hs hreported]
        have hown : s.Keeps d := by
          intro known hknown
          rw [hlookup] at hknown
          rw [← Option.some.inj hknown, hsame]
        have hother : (∀ e ∈ ds, s.Keeps e) →
            ∀ e ∈ ds, e.map Ascii.toLower = d.map Ascii.toLower → d = e := by
          intro hkeeps e he hfold
          rw [← hsame]
          apply hkeeps e he
          rw [hfold, hlookup]
        tauto
      · have hproblem : (s.add d).problems ≠ [] := by
          simp [Spellings.add, hlookup, hsame, hreported]
        have hkept := foldl_problems ds (s.add d)
        constructor
        · intro hnil
          rw [hnil] at hkept
          exact absurd (List.prefix_nil.mp hkept) hproblem
        · intro h
          exact absurd (h.2.1 first hlookup) hsame
    | none =>
      have hadd : s.add d = { s with first := (d.map Ascii.toLower, d) :: s.first } := by
        simp only [Spellings.add, hlookup]
      have hown : s.Keeps d := by
        intro known hknown
        rw [hlookup] at hknown
        cases hknown
      have hkeeps : ∀ e, (s.add d).Keeps e ↔
          s.Keeps e ∧ (e.map Ascii.toLower = d.map Ascii.toLower → d = e) := by
        intro e
        rw [hadd, Keeps, Keeps]
        simp only [List.lookup_cons]
        by_cases hfold : e.map Ascii.toLower = d.map Ascii.toLower
        · simp [hfold, hlookup]
        · have hbeq : (e.map Ascii.toLower == d.map Ascii.toLower) = false := by simpa using hfold
          simp [hbeq, hfold]
      have hnone : (s.add d).problems = [] ∧ (s.add d).reported = [] := by
        rw [hadd]
        exact ⟨hs, hreported⟩
      rw [ih (s.add d) hnone.1 hnone.2]
      simp only [hkeeps, forall_and]
      tauto

end Spellings

/-- The directories the paths need, as they are spelled. -/
def neededDirectories (paths : List BundlePath) : List (List Char) :=
  paths.flatMap fun path => directories path.text.toList

/-- No collision is reported exactly when the files' folded names are all
different, none of them is a folded directory's, and directories of one folded
name are spelled alike. -/
theorem collisions_nil {paths : List BundlePath} : collisions paths = [] ↔
    (paths.map folded).Nodup ∧
      (∀ path ∈ paths, ∀ directory ∈ directories (folded path), directory ∉ paths.map folded) ∧
      Alike (neededDirectories paths) := by
  have hspelled := Spellings.foldl_nil (neededDirectories paths) {} rfl rfl
  have hnames : ∀ name, (caseCollisions [] paths).1.lookup name = none ↔
      name ∉ paths.map folded := by
    intro name
    have hlookup := @caseCollisions_lookup [] paths name
    rw [← Option.not_isSome_iff_eq_none, hlookup]
    simp
  rw [collisions, List.append_eq_nil_iff, List.append_eq_nil_iff, caseCollisions_nil,
    directoryCollisions_nil, spellingCollisions, ← neededDirectories, hspelled]
  simp only [hnames, Spellings.Keeps, List.lookup_nil, implies_true, and_true, reduceCtorEq,
    false_implies, and_assoc]

/-- Every problem is a collision. -/
theorem collisions_code {paths : List BundlePath} :
    ∀ problem ∈ collisions paths, problem.code = .pathCollision := by
  have hcase : ∀ (paths : List BundlePath) (files : List (List Char × BundlePath)),
      ∀ problem ∈ (caseCollisions files paths).2, problem.code = .pathCollision := by
    intro paths
    induction paths with
    | nil => simp [caseCollisions]
    | cons path rest ih =>
      intro files
      rw [caseCollisions]
      cases files.lookup (folded path) with
      | some first =>
        rw [List.forall_mem_cons]
        refine ⟨?_, ih files⟩
        unfold caseCollision
        split_ifs <;> rfl
      | none => exact ih _
  have hspelled : ∀ (ds : List (List Char)) (s : Spellings),
      (∀ problem ∈ s.problems, problem.code = .pathCollision) →
        ∀ problem ∈ (ds.foldl Spellings.add s).problems, problem.code = .pathCollision := by
    intro ds
    induction ds with
    | nil => exact fun _ h => h
    | cons d ds ih =>
      intro s hs
      apply ih
      unfold Spellings.add
      simp only
      split
      · split_ifs
        · intro problem hproblem
          rcases List.mem_append.mp hproblem with hproblem | hproblem
          · exact hs problem hproblem
          · rw [List.mem_singleton.mp hproblem]
            rfl
        · exact hs
      · exact hs
  intro problem hproblem
  rw [collisions, List.mem_append, List.mem_append] at hproblem
  rcases hproblem with (hproblem | hproblem) | hproblem
  · exact hcase paths [] problem hproblem
  · obtain ⟨path, -, hproblem⟩ := List.mem_flatMap.mp hproblem
    obtain ⟨directory, -, hproblem⟩ := List.mem_filterMap.mp hproblem
    obtain ⟨file, -, rfl⟩ := Option.map_eq_some_iff.mp hproblem
    rfl
  · exact hspelled _ {} (by simp) problem hproblem

/-- Paths without a collision are so in part. -/
theorem collisions_subperm {paths others : List BundlePath} (h : paths.Subperm others)
    (hnil : collisions others = []) : collisions paths = [] := by
  rw [collisions_nil] at hnil ⊢
  obtain ⟨hnodup, hfiles, halike⟩ := hnil
  obtain ⟨part, hpart, hsublist⟩ := h
  have hsubset : paths ⊆ others := List.Subperm.subset ⟨part, hpart, hsublist⟩
  have hfolded : (part.map folded).Perm (paths.map folded) := hpart.map folded
  have hdirectories : ∀ d ∈ neededDirectories paths, d ∈ neededDirectories others := by
    intro d hd
    obtain ⟨path, hpath, hd⟩ := List.mem_flatMap.mp hd
    exact List.mem_flatMap.mpr ⟨path, hsubset hpath, hd⟩
  refine ⟨?_, ?_, ?_⟩
  · exact hfolded.nodup_iff.mp (hnodup.sublist (hsublist.map folded))
  · intro path hpath directory hdirectory hfile
    apply hfiles path (hsubset hpath) directory hdirectory
    obtain ⟨file, hmem, rfl⟩ := List.mem_map.mp hfile
    exact List.mem_map.mpr ⟨file, hsubset hmem, rfl⟩
  · intro d hd e he
    exact halike d (hdirectories d hd) e (hdirectories e he)

end QuantForge.Bundle
