import QuantForge.Protocol.Bundle.DirPart
import QuantForge.Protocol.Bundle.Refusal

namespace QuantForge.Bundle

variable {root : Entries} {limits : BundleLimits}

/-- The files a walk within the limits reaches: all of them, or one more than
a bundle may hold, in the order of the walk, and the root's manifest. -/
def reached (root : Entries) (limits : BundleLimits) : List (String × List UInt8) :=
  let first := (filesOf root).take (limits.maxFiles.toNat + 1)
  if (filesOf root).length ≤ limits.maxFiles.toNat + 1 then filesOf root
  else if first.any fun file => file.1 == manifestFile then first
  else
    match root.lookup manifestFile with
    | some (.file contents) => first ++ [(manifestFile, contents)]
    | _ => first

theorem filesOf_perm (root : Entries) : (filesOf root).Perm (filesIn "" root) := by
  have hperm := walkOrder_perm [("", root)]
  rw [List.flatMap_cons, List.flatMap_nil, List.append_nil] at hperm
  exact hperm

theorem filesOf_nodup (h : ProperDir root) : ((filesOf root).map Prod.fst).Nodup :=
  ((filesOf_perm root).map Prod.fst).nodup_iff.mpr
    (filesIn_nodup "" root h.names.distinct h.names.plain h.nodes)

theorem candidatesOf_paths (files : List (String × List UInt8)) :
    (candidatesOf files).map Candidate.path = files.map Prod.fst := by
  rw [candidatesOf, List.map_map]
  rfl

theorem root_manifest (h : ProperDir root) {contents : List UInt8} :
    (manifestFile, contents) ∈ filesOf root ↔ root.lookup manifestFile = some (.file contents) := by
  rw [(filesOf_perm root).mem_iff]
  exact root_file h (by decide) (by decide)

variable (limits) in
/-- What is collected stands for the files reached. -/
theorem collect_stands (h : ProperDir root) : (collect root limits).problems = [] ∧
    List.Forall₂ (Stands limits) (collect root limits).candidates
      (candidatesOf (reached root limits)) := by
  rw [collect_eq h, reached]
  by_cases hroom : (filesOf root).length ≤ limits.maxFiles.toNat + 1
  · rw [if_pos hroom, if_pos hroom]
    obtain ⟨hproblems, hstands, -⟩ := readAll_stands limits (filesOf root)
    exact ⟨hproblems, hstands⟩
  · rw [if_neg hroom, if_neg hroom]
    obtain ⟨hproblems, hstands, -⟩ :=
      readAll_stands limits ((filesOf root).take (limits.maxFiles.toNat + 1))
    have hany : ∀ {cs : List Candidate} {files : List (String × List UInt8)},
        List.Forall₂ (Stands limits) cs (candidatesOf files) →
          (cs.any fun c => c.path == manifestFile) =
            files.any fun file => file.1 == manifestFile := by
      intro cs files hall
      induction files generalizing cs with
      | nil =>
        cases hall
        rfl
      | cons file files ih =>
        cases hall with
        | cons hc hrest => rw [List.any_cons, List.any_cons, ih hrest, hc.path_eq]; rfl
    rw [Collected.stop, hany hstands]
    split_ifs with hheld
    · exact ⟨hproblems, hstands⟩
    · cases hlookup : root.lookup manifestFile with
      | none => exact ⟨hproblems, hstands⟩
      | some node =>
        cases node with
        | file contents =>
          refine ⟨hproblems, ?_⟩
          simp only
          rw [candidatesOf, List.map_append, ← candidatesOf]
          apply List.rel_append hstands
          refine .cons ⟨rfl, rfl, ?_, ?_⟩ .nil
          · by_cases hsize : saturating contents.length ≤ limits.fileLimit
            · rw [if_pos hsize, readAtMost_all hsize]
              exact .inl rfl
            · rw [if_neg hsize]
              exact .inr rfl
          · intro _ hsize
            have hsize : saturating contents.length ≤ limits.fileLimit := hsize
            rw [if_pos hsize, readAtMost_all hsize]
            rfl
        | dir entries => exact ⟨hproblems, hstands⟩
        | symlink => exact ⟨hproblems, hstands⟩
        | special => exact ⟨hproblems, hstands⟩

variable (limits) in
theorem reached_subperm (h : ProperDir root) :
    (reached root limits).Subperm (filesOf root) := by
  have htake := (List.take_sublist (limits.maxFiles.toNat + 1) (filesOf root)).subperm
  rw [reached]
  split_ifs with hroom hheld
  · exact List.Subperm.refl _
  · exact htake
  · cases hlookup : root.lookup manifestFile with
    | none => exact htake
    | some node =>
      cases node with
      | file contents =>
        have hmem := (root_manifest h).mpr hlookup
        rw [← List.take_append_drop (limits.maxFiles.toNat + 1) (filesOf root),
          List.mem_append] at hmem
        rcases hmem with hmem | hmem
        · exact absurd (List.any_eq_true.mpr ⟨_, hmem, by simp⟩) hheld
        · have hlast : [(manifestFile, contents)].Subperm
              ((filesOf root).drop (limits.maxFiles.toNat + 1)) :=
            List.singleton_subperm_iff.mpr hmem
          have hboth := (List.subperm_append_left
            ((filesOf root).take (limits.maxFiles.toNat + 1))).mpr hlast
          rw [List.take_append_drop] at hboth
          exact hboth
      | dir entries => exact htake
      | symlink => exact htake
      | special => exact htake

variable (limits) in
/-- The root's manifest is always reached. -/
theorem reached_manifest (h : ProperDir root) {contents : List UInt8} :
    (manifestFile, contents) ∈ reached root limits ↔ (manifestFile, contents) ∈ filesOf root := by
  constructor
  · exact fun hmem => (reached_subperm limits h).subset hmem
  · intro hmem
    rw [reached]
    split_ifs with hroom hheld
    · exact hmem
    · obtain ⟨file, hfile, hname⟩ := List.any_eq_true.mp hheld
      have hsame : file = (manifestFile, contents) :=
        List.inj_on_of_nodup_map (filesOf_nodup h) (List.mem_of_mem_take hfile) hmem
          (by simpa using hname)
      rw [← hsame]
      exact hfile
    · rw [(root_manifest h).mp hmem]
      simp

variable (limits) in
/-- The order of the files does not matter to their checks. -/
theorem check_perm {files others : List (String × List UInt8)} (h : files.Perm others)
    (hnodup : (files.map Prod.fst).Nodup) :
    check (candidatesOf files) limits = check (candidatesOf others) limits ∧
      readManifest (candidatesOf files) limits = readManifest (candidatesOf others) limits := by
  have hpaths : ((candidatesOf files).map Candidate.path).Nodup := by
    rw [candidatesOf_paths]
    exact hnodup
  have hperm : (candidatesOf files).Perm (candidatesOf others) := h.map _
  have hcheck : check (candidatesOf files) limits = check (candidatesOf others) limits := by
    rw [check, check, sorted_perm hperm hpaths]
  refine ⟨hcheck, ?_⟩
  rw [readManifest, readManifest, manifestBytes, manifestBytes, hcheck, find_perm hperm hpaths]

theorem paths_mem {files : List (String × List UInt8)} {path : BundlePath} :
    path ∈ (check (candidatesOf files) limits).paths ↔ path.text ∈ files.map Prod.fst := by
  rw [mem_paths, ← candidatesOf_paths, List.mem_map]

theorem stands_paths {cs files : List Candidate} (h : List.Forall₂ (Stands limits) cs files) :
    cs.map Candidate.path = files.map Candidate.path := by
  induction h with
  | nil => rfl
  | cons hc _ ih => rw [List.map_cons, List.map_cons, hc.path_eq, ih]

theorem stands_left {cs files : List Candidate} (h : List.Forall₂ (Stands limits) cs files)
    {c : Candidate} (hc : c ∈ cs) : ∃ file ∈ files, Stands limits c file := by
  induction h with
  | nil => cases hc
  | @cons first file _ _ hfirst _ ih =>
    rcases List.mem_cons.mp hc with rfl | hc
    · exact ⟨file, by simp, hfirst⟩
    · obtain ⟨other, hother, hstands⟩ := ih hc
      exact ⟨other, List.mem_cons_of_mem _ hother, hstands⟩

theorem stands_right {cs files : List Candidate} (h : List.Forall₂ (Stands limits) cs files)
    {file : Candidate} (hfile : file ∈ files) : ∃ c ∈ cs, Stands limits c file := by
  induction h with
  | nil => cases hfile
  | @cons c first _ _ hfirst _ ih =>
    rcases List.mem_cons.mp hfile with rfl | hfile
    · exact ⟨c, by simp, hfirst⟩
    · obtain ⟨other, hother, hstands⟩ := ih hfile
      exact ⟨other, List.mem_cons_of_mem _ hother, hstands⟩

/-- The manifest is read alike from the files and from what is collected. -/
theorem readManifest_collected (h : ProperDir root) :
    readManifest (collect root limits).candidates limits =
      readManifest (candidatesOf (filesOf root)) limits := by
  have hstands := (collect_stands limits h).2
  have hsubset : ∀ c ∈ candidatesOf (reached root limits), c ∈ candidatesOf (filesOf root) := by
    intro c hc
    obtain ⟨file, hfile, rfl⟩ := List.mem_map.mp hc
    exact List.mem_map.mpr ⟨file, (reached_subperm limits h).subset hfile, rfl⟩
  have hnodup : ((candidatesOf (filesOf root)).map Candidate.path).Nodup := by
    rw [candidatesOf_paths]
    exact filesOf_nodup h
  have hcollected : ((collect root limits).candidates.map Candidate.path).Nodup := by
    obtain ⟨same, hperm, hsublist⟩ := reached_subperm limits h
    rw [stands_paths hstands, candidatesOf_paths]
    exact (hperm.map Prod.fst).nodup_iff.mp ((filesOf_nodup h).sublist (hsublist.map _))
  ext bytes
  rw [readManifest_some hcollected, readManifest_some hnodup]
  constructor
  · intro hread
    obtain ⟨c, hc, hpath, hsize, hbytes⟩ := hread
    obtain ⟨file, hfile, hstand⟩ := stands_left hstands hc
    rw [hstand.path_eq] at hpath
    rw [hstand.size_eq] at hsize
    rw [hstand.manifest_eq hpath hsize] at hbytes
    exact ⟨file, hsubset file hfile, hpath, hsize, hbytes⟩
  · intro hread
    obtain ⟨file, hfile, hpath, hsize, hbytes⟩ := hread
    obtain ⟨⟨name, contents⟩, hmem, rfl⟩ := List.mem_map.mp hfile
    have hname : name = manifestFile := hpath
    subst hname
    have hheld := (reached_manifest limits h).mpr hmem
    obtain ⟨c, hc, hstand⟩ := stands_right hstands (List.mem_map.mpr ⟨_, hheld, rfl⟩)
    refine ⟨c, hc, hstand.path_eq, ?_, ?_⟩
    · rw [hstand.size_eq]
      exact hsize
    · rw [hstand.manifest_eq rfl hsize]
      exact hbytes

section

variable [TomlParser]

/-- The bundle from a directory and the bundle from `files` in memory agree:
either is accepted exactly when the other is, and is the same; where both are
refused, the codes of the problems found in the manifest are the same; and the
directory's refusal has no code that the files' refusal has not. -/
structure Agrees (root : Entries) (files : List (String × List UInt8)) (limits : BundleLimits) :
    Prop where
  accepts : ∀ b, fromDir root limits = .ok b ↔ fromFiles files limits = .ok b
  manifest : ∀ found given, fromDir root limits = .error found →
    fromFiles files limits = .error given →
      (manifestFound (collect root limits).candidates limits).map BundleProblem.code =
        (manifestFound (candidatesOf files) limits).map BundleProblem.code
  codes : ∀ found, fromDir root limits = .error found → ∃ given,
    fromFiles files limits = .error given ∧
      ∀ problem ∈ found, ∃ other ∈ given, other.code = problem.code

/-- The file of the entry that the manifest names is reached, if the directory
holds it. -/
def EntryReached (root : Entries) (limits : BundleLimits) : Prop :=
  ∀ bytes entry, root.lookup manifestFile = some (.file bytes) →
    saturating bytes.length ≤ limits.fileLimit → Manifest.NamesEntry bytes entry →
      entry.file.text ∈ (filesOf root).map Prod.fst →
        entry.file.text ∈ (reached root limits).map Prod.fst

/-- With room for every file the directory gives what its files give. -/
theorem fromDir_room (h : ProperDir root)
    (hroom : (filesOf root).length ≤ limits.maxFiles.toNat + 1) :
    fromDir root limits = fromFiles (filesOf root) limits := by
  have hreached : reached root limits = filesOf root := by rw [reached, if_pos hroom]
  obtain ⟨hproblems, hstands⟩ := collect_stands limits h
  rw [hreached] at hstands
  obtain ⟨hsame, hpaths⟩ := check_stands hstands
  rw [fromDir, fromFiles, hproblems]
  apply checkBundle_congr (readManifest_collected h) hsame hpaths
  intro hnil
  obtain ⟨-, hall, hreads⟩ := readAll_stands limits (filesOf root)
  have hread := hreads (sizes_fit hnil)
  have hcollect : collect root limits = readAll limits (filesOf root) := by
    rw [collect_eq h, if_pos hroom]
  rw [hcollect, check_read (List.Forall₂.mp (fun _ _ hstand hread => ⟨hstand, hread⟩) hall hread)]

/-- More files than the limit are refused. -/
theorem refused_full {candidates : List Candidate}
    (h : limits.maxFiles.toNat < candidates.length) :
    ∃ found, checkBundle candidates [] limits = .error found := by
  cases hresult : checkBundle candidates [] limits with
  | error found => exact ⟨found, rfl⟩
  | ok b =>
    have hnil := (checkBundle_ok.mp hresult).problems_nil
    have hlen : (candidates.insertionSort byPath).length = candidates.length :=
      List.length_insertionSort _ _
    have hmany : ∃ problem, problem ∈ tooManyFiles limits (candidates.insertionSort byPath) := by
      rw [tooManyFiles, if_pos (by omega)]
      exact ⟨_, List.mem_singleton.mpr rfl⟩
    obtain ⟨problem, hproblem⟩ := hmany
    have hfound := mem_problems.mpr (.inr (.inr (.inl hproblem)))
    rw [hnil] at hfound
    cases hfound

/-- A directory without room for every file: more are reached than the limit,
and both it and its files are refused. -/
theorem refused_both (h : ProperDir root)
    (hroom : ¬(filesOf root).length ≤ limits.maxFiles.toNat + 1) :
    (∃ found, fromDir root limits = .error found) ∧
      ∃ given, fromFiles (filesOf root) limits = .error given := by
  obtain ⟨hproblems, hstands⟩ := collect_stands limits h
  have hlen : limits.maxFiles.toNat < (reached root limits).length := by
    have htake : ((filesOf root).take (limits.maxFiles.toNat + 1)).length =
        limits.maxFiles.toNat + 1 := by
      rw [List.length_take]
      omega
    rw [reached, if_neg hroom]
    split_ifs
    · omega
    · split
      · rw [List.length_append]
        omega
      · omega
  refine ⟨?_, ?_⟩
  · rw [fromDir, hproblems]
    apply refused_full
    rw [hstands.length_eq, candidatesOf, List.length_map]
    exact hlen
  · apply refused_full
    rw [candidatesOf, List.length_map]
    omega

/-- The problems found in the manifest of what is collected have the codes of
those found in the manifest of the files, if the entry's file is reached. -/
theorem manifest_codes (h : ProperDir root) (hentry : EntryReached root limits) :
    (manifestFound (collect root limits).candidates limits).map BundleProblem.code =
      (manifestFound (candidatesOf (filesOf root)) limits).map BundleProblem.code := by
  have hpaths := (check_stands (collect_stands limits h).2).2
  rw [manifestFound, manifestFound, readManifest_collected h, hpaths]
  cases hread : readManifest (candidatesOf (filesOf root)) limits with
  | none => rfl
  | some bytes =>
    apply Manifest.codes_same
    intro entry hnames
    rw [paths_mem, paths_mem]
    constructor
    · intro hmem
      obtain ⟨file, hfile, hpath⟩ := List.mem_map.mp hmem
      exact List.mem_map.mpr ⟨file, (reached_subperm limits h).subset hfile, hpath⟩
    · intro hmem
      have hnodup : ((candidatesOf (filesOf root)).map Candidate.path).Nodup := by
        rw [candidatesOf_paths]
        exact filesOf_nodup h
      obtain ⟨c, hc, hpath, hsize, hbytes⟩ := (readManifest_some hnodup).mp hread
      obtain ⟨⟨name, contents⟩, hfile, rfl⟩ := List.mem_map.mp hc
      have hname : name = manifestFile := hpath
      have hcontents : contents = bytes := Option.some.inj hbytes
      subst hname hcontents
      exact hentry contents entry ((root_manifest h).mp hfile) hsize hnames hmem

/-- A refused directory's codes are among those of its files' refusal, if the
entry's file is reached. -/
theorem refusal_codes (h : ProperDir root) (hentry : EntryReached root limits)
    {found given : List BundleProblem} (hfound : fromDir root limits = .error found)
    (hgiven : fromFiles (filesOf root) limits = .error given) :
    ∀ problem ∈ found, ∃ other ∈ given, other.code = problem.code := by
  obtain ⟨hproblems, hstands⟩ := collect_stands limits h
  obtain ⟨hsame, hpaths⟩ := check_stands hstands
  have hpart : (candidatesOf (reached root limits)).Subperm (candidatesOf (filesOf root)) := by
    obtain ⟨same, hperm, hsublist⟩ := reached_subperm limits h
    exact ⟨_, hperm.map _, hsublist.map _⟩
  rw [fromDir, hproblems] at hfound
  have hlisted := checkBundle_error hfound
  have hgivenList := checkBundle_error hgiven
  rw [List.nil_append] at hlisted hgivenList
  intro problem hproblem
  rw [hlisted, List.mem_append, List.mem_append] at hproblem
  rw [hgivenList]
  rcases hproblem with (hfiles | hmanifest) | hmissing
  · rw [hsame] at hfiles
    obtain ⟨other, hother, hcode⟩ := part_codes hpart problem hfiles
    exact ⟨other, List.mem_append_left _ (List.mem_append_left _ hother), hcode⟩
  · have hcodes := manifest_codes h hentry
    have hcode : problem.code ∈
        (manifestFound (candidatesOf (filesOf root)) limits).map BundleProblem.code := by
      rw [← hcodes]
      exact List.mem_map.mpr ⟨problem, hmanifest, rfl⟩
    obtain ⟨other, hother, hcode⟩ := List.mem_map.mp hcode
    exact ⟨other, List.mem_append_left _ (List.mem_append_right _ hother), hcode⟩
  · refine ⟨problem, List.mem_append_right _ ?_, rfl⟩
    rw [missingManifest, hpaths] at hmissing
    rw [missingManifest]
    split_ifs at hmissing with hreached
    · cases hmissing
    · rw [if_neg]
      · exact hmissing
      · intro hheld
        apply hreached
        rw [paths_mem, List.mem_map] at hheld ⊢
        obtain ⟨⟨name, contents⟩, hfile, hname⟩ := hheld
        have hname : name = manifestFile := hname
        subst hname
        exact ⟨_, (reached_manifest limits h).mpr hfile, rfl⟩

/-- A bundle from a directory agrees with the bundle from its files in memory
exactly when the walk reaches the file of the manifest's entry. -/
theorem fromDir_agrees (h : ProperDir root) {files : List (String × List UInt8)}
    (hfiles : files.Perm (filesIn "" root)) : Agrees root files limits ↔ EntryReached root limits := by
  have hperm : files.Perm (filesOf root) := hfiles.trans (filesOf_perm root).symm
  have hnodup : (files.map Prod.fst).Nodup := (hperm.map Prod.fst).nodup_iff.mpr (filesOf_nodup h)
  obtain ⟨hcheck, hread⟩ := check_perm limits hperm hnodup
  have hsame : fromFiles files limits = fromFiles (filesOf root) limits := by
    rw [fromFiles, fromFiles]
    apply checkBundle_congr hread <;> rw [hcheck]
    exact fun _ => rfl
  have hfound : manifestFound (candidatesOf files) limits =
      manifestFound (candidatesOf (filesOf root)) limits := by
    rw [manifestFound, manifestFound, hread, hcheck]
  constructor
  · intro hagrees bytes entry hlookup hsize hnames hheld
    by_contra hout
    have hroom : ¬(filesOf root).length ≤ limits.maxFiles.toNat + 1 := by
      intro hroom
      rw [reached, if_pos hroom] at hout
      exact hout hheld
    obtain ⟨⟨found, hdir⟩, given, hgiven⟩ := refused_both h hroom
    rw [← hsame] at hgiven
    have hcodes := hagrees.manifest found given hdir hgiven
    have hnodup : ((candidatesOf (filesOf root)).map Candidate.path).Nodup := by
      rw [candidatesOf_paths]
      exact filesOf_nodup h
    have hbytes : readManifest (candidatesOf (filesOf root)) limits = some bytes :=
      (readManifest_some hnodup).mpr ⟨_, List.mem_map.mpr ⟨_, (root_manifest h).mpr hlookup, rfl⟩,
        rfl, hsize, rfl⟩
    have hpaths := (check_stands (collect_stands limits h).2).2
    rw [hfound, manifestFound, manifestFound, readManifest_collected h, hbytes, hpaths] at hcodes
    exact Manifest.codes_differ hnames (paths_mem.mpr hheld) (fun hin => hout (paths_mem.mp hin))
      hcodes
  · intro hentry
    by_cases hroom : (filesOf root).length ≤ limits.maxFiles.toNat + 1
    · have hall : fromDir root limits = fromFiles files limits := by
        rw [hsame]
        exact fromDir_room h hroom
      refine ⟨fun b => by rw [hall], ?_, ?_⟩
      · intro found given _ _
        rw [hfound]
        exact manifest_codes h hentry
      · intro found hdir
        exact ⟨found, hall ▸ hdir, fun problem hproblem => ⟨problem, hproblem, rfl⟩⟩
    · obtain ⟨⟨found, hdir⟩, given, hgiven⟩ := refused_both h hroom
      rw [← hsame] at hgiven
      refine ⟨?_, ?_, ?_⟩
      · intro b
        rw [hdir, hgiven]
        simp
      · intro found given _ _
        rw [hfound]
        exact manifest_codes h hentry
      · intro other hother
        rw [hdir] at hother
        rw [← Except.error.inj hother]
        refine ⟨given, hgiven, ?_⟩
        rw [hsame] at hgiven
        exact refusal_codes h hentry hdir hgiven

end

attribute [local instance] sampleParser

/-- The sample files as a directory. -/
def sampleRoot : Entries :=
  [("pkg.py", .file (Bytes.utf8 "class Hold:\n    pass\n")),
    ("quantforge.toml", .file (Bytes.utf8 sampleText))]

theorem sampleRoot_agrees : Agrees sampleRoot (filesIn "" sampleRoot) BundleLimits.default := by
  have hproper : ProperDir sampleRoot :=
    ⟨⟨by decide, by decide⟩, properAll_iff.mpr (by simp [sampleRoot, Node.Proper])⟩
  apply (fromDir_agrees hproper (List.Perm.refl _)).mpr
  intro bytes entry _ _ _ hheld
  have hlen : (filesOf sampleRoot).length ≤ BundleLimits.default.maxFiles.toNat + 1 := by
    rw [(filesOf_perm sampleRoot).length_eq]
    decide
  rw [reached, if_pos hlen]
  exact hheld

/-- The sample files after two others. -/
def crowdedRoot : Entries := ("a.py", .file []) :: ("b.py", .file []) :: sampleRoot

/-- A limit of one file. -/
def oneFile : BundleLimits := { BundleLimits.default with maxFiles := 1 }

/-- What the walk collects of it before it stops. -/
def crowdedCandidates : List Candidate :=
  [Candidate.read "a.py" [], Candidate.read "b.py" [],
    Candidate.read manifestFile (Bytes.utf8 sampleText)]

theorem crowdedRoot_collected :
    collect crowdedRoot oneFile = ⟨crowdedCandidates, []⟩ := by
  have hvisit : (sortedEntries crowdedRoot).foldlM (Walk.visit crowdedRoot oneFile "")
      { Walk.start with subdirectories := [] } = .error ⟨crowdedCandidates, []⟩ := by
    rfl
  rw [collect, walk_cons, hvisit]

/-- The walk stops before the entry's file, and the manifest is said to name a
file that the bundle does not hold. -/
theorem entry_past_limit : ¬Agrees crowdedRoot (filesIn "" crowdedRoot) oneFile ∧ ∃ found given,
    fromDir crowdedRoot oneFile = .error found ∧
      fromFiles (filesIn "" crowdedRoot) oneFile = .error given ∧
      .entryNotFound ∈ found.map BundleProblem.code ∧
      .entryNotFound ∉ given.map BundleProblem.code := by
  have hread : readManifest crowdedCandidates oneFile = some (Bytes.utf8 sampleText) := by
    decide +kernel
  have hgiven : readManifest (candidatesOf (filesIn "" crowdedRoot)) oneFile =
      some (Bytes.utf8 sampleText) := by decide +kernel
  have hheld : samplePath ∈ (check (candidatesOf (filesIn "" crowdedRoot)) oneFile).paths := by
    decide +kernel
  have hmissing : samplePath ∉ (check crowdedCandidates oneFile).paths := by decide +kernel
  have hcodes : ((check (candidatesOf (filesIn "" crowdedRoot)) oneFile).problems).map
      BundleProblem.code = [.tooManyFiles] := by decide +kernel
  have hsome : (check (candidatesOf (filesIn "" crowdedRoot)) oneFile).problems.isEmpty = false := by
    decide +kernel
  have hdocument : Manifest.document (Bytes.utf8 sampleText) = .ok sampleTable :=
    Manifest.document_ok (by decide) (by decide) rfl rfl
  have hentry : Manifest.parsed Entry.parse sampleTable "entry" .entryInvalid
      "\"strategy.py:MyStrategy\"" = .ok sampleManifest.entry := rfl
  have hformat : Manifest.format_ sampleTable = .ok 1 := rfl
  have hproblems : .entryNotFound ∈ (Manifest.problems (Bytes.utf8 sampleText)
      (check crowdedCandidates oneFile).paths).map BundleProblem.code := by
    have hout : sampleManifest.entry.file ∉ (check crowdedCandidates oneFile).paths := hmissing
    rw [Manifest.problems_eq]
    simp only [hdocument, hformat, List.map_append, Manifest.entry_problems, hentry, if_neg hout]
    simp
  have hdir : ∃ found, fromDir crowdedRoot oneFile = .error found ∧
      .entryNotFound ∈ found.map BundleProblem.code := by
    rw [Manifest.problems] at hproblems
    cases hparse : Manifest.parse (Bytes.utf8 sampleText)
        (check crowdedCandidates oneFile).paths with
    | ok manifest => simp [hparse] at hproblems
    | error refused =>
      rw [hparse] at hproblems
      have hrefused : checkBundle crowdedCandidates [] oneFile =
          .error ((check crowdedCandidates oneFile).problems ++ refused) := by
        rw [checkBundle_eq, hread]
        simp only [hparse, List.nil_append]
      refine ⟨(check crowdedCandidates oneFile).problems ++ refused, ?_, ?_⟩
      · rw [fromDir, crowdedRoot_collected]
        exact hrefused
      · rw [List.map_append]
        exact List.mem_append_right _ hproblems
  obtain ⟨found, hfound, hreported⟩ := hdir
  have hfiles : fromFiles (filesIn "" crowdedRoot) oneFile =
      .error (check (candidatesOf (filesIn "" crowdedRoot)) oneFile).problems := by
    rw [fromFiles, checkBundle_eq, hgiven]
    simp only [sample_parse hheld, List.nil_append, hsome, Bool.false_eq_true, if_false]
  have hnot : .entryNotFound ∉ ((check (candidatesOf (filesIn "" crowdedRoot)) oneFile).problems).map
      BundleProblem.code := by
    rw [hcodes]
    decide
  refine ⟨?_, found, _, hfound, hfiles, hreported, hnot⟩
  intro hagrees
  obtain ⟨given, hgiven, hcodes⟩ := hagrees.codes found hfound
  rw [hfiles] at hgiven
  obtain ⟨problem, hproblem, hcode⟩ := List.mem_map.mp hreported
  obtain ⟨other, hother, hsame⟩ := hcodes problem hproblem
  rw [← Except.error.inj hgiven] at hother
  exact hnot (List.mem_map.mpr ⟨other, hother, hsame.trans hcode⟩)

end QuantForge.Bundle
