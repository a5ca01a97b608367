import QuantForge.Protocol.Bundle.Dir

namespace QuantForge.Bundle

/-- Whether an entry is left out of a bundle. -/
def leftOut (name : String) : Node → Bool
  | .dir _ => isHidden name || name == pycache
  | _ => isHidden name

mutual

/-- The files at and below a node. -/
def Node.filesAt (path : String) : Node → List (String × List UInt8)
  | .file contents => [(path, contents)]
  | .dir entries => filesIn path entries
  | .symlink => []
  | .special => []

/-- The files below a directory outside the entries left out, with their
paths. -/
def filesIn (before : String) : List (String × Node) → List (String × List UInt8)
  | [] => []
  | (name, node) :: entries =>
    (if leftOut name node then [] else node.filesAt (relativePath before name)) ++
      filesIn before entries

end

/-- The names of a directory's entries: no two are the same, and none is empty
or holds a `/`. -/
structure ProperNames (entries : Entries) : Prop where
  distinct : (entries.map Prod.fst).Nodup
  plain : ∀ entry ∈ entries, entry.1 ≠ "" ∧ '/' ∉ entry.1.toList

mutual

/-- A regular file, or a directory of regular files and subdirectories. -/
def Node.Proper : Node → Prop
  | .file _ => True
  | .dir entries => ProperNames entries ∧ properAll entries
  | .symlink => False
  | .special => False

def properAll : List (String × Node) → Prop
  | [] => True
  | (_, node) :: entries => node.Proper ∧ properAll entries

end

/-- A directory of regular files and subdirectories. -/
structure ProperDir (entries : Entries) : Prop where
  names : ProperNames entries
  nodes : properAll entries

/-- The files a directory holds itself. -/
def ownFiles (before : String) (entries : Entries) : List (String × List UInt8) :=
  entries.filterMap fun (name, node) =>
    match node with
    | .file contents => if leftOut name node then none else some (relativePath before name, contents)
    | _ => none

/-- The directories a directory holds itself. -/
def ownDirs (before : String) (entries : Entries) : List (String × Entries) :=
  entries.filterMap fun (name, node) =>
    match node with
    | .dir sub => if leftOut name node then none else some (relativePath before name, sub)
    | _ => none

theorem ownDirs_dirs (before : String) (entries : Entries) :
    pendingDirs (ownDirs before entries) ≤ dirsOf entries := by
  induction entries with
  | nil => exact Nat.zero_le _
  | cons entry entries ih =>
    obtain ⟨name, node⟩ := entry
    rw [dirsOf, ownDirs, List.filterMap_cons]
    rw [ownDirs] at ih
    cases node with
    | dir sub =>
      simp only
      split_ifs
      · exact ih.trans (Nat.le_add_left _ _)
      · rw [pendingDirs, List.map_cons, List.sum_cons, Node.dirs]
        exact Nat.add_le_add_left ih _
    | file contents => exact ih.trans (Nat.le_add_left _ _)
    | symlink => exact ih.trans (Nat.le_add_left _ _)
    | special => exact ih.trans (Nat.le_add_left _ _)

/-- The files below directories in the order of a walk: those of a directory
in the order of their names, then those of its subdirectories. -/
def walkOrder : List (String × Entries) → List (String × List UInt8)
  | [] => []
  | (before, entries) :: pending =>
    ownFiles before (sortedEntries entries) ++
      walkOrder (ownDirs before (sortedEntries entries) ++ pending)
  termination_by pending => pendingDirs pending
  decreasing_by
    have hfound := ownDirs_dirs before (sortedEntries entries)
    rw [dirsOf_sorted] at hfound
    simp only [pendingDirs, List.map_append, List.map_cons, List.sum_append, List.sum_cons]
      at hfound ⊢
    omega

/-- A directory's files are its own, and those of its directories. -/
theorem filesIn_perm (before : String) (entries : Entries) :
    (filesIn before entries).Perm (ownFiles before entries ++
      (ownDirs before entries).flatMap fun directory => filesIn directory.1 directory.2) := by
  induction entries with
  | nil => exact List.Perm.refl _
  | cons entry entries ih =>
    obtain ⟨name, node⟩ := entry
    rw [filesIn, ownFiles, ownDirs, List.filterMap_cons, List.filterMap_cons, ← ownFiles, ← ownDirs]
    cases node with
    | dir sub =>
      simp only
      split_ifs
      · exact ih
      · rw [Node.filesAt, List.flatMap_cons]
        refine (List.Perm.append_left _ ih).trans ?_
        rw [← List.append_assoc, ← List.append_assoc]
        exact List.Perm.append_right _ List.perm_append_comm
    | file contents =>
      simp only
      split_ifs
      · exact ih
      · exact List.Perm.cons _ ih
    | symlink =>
      rw [Node.filesAt, ite_self]
      exact ih
    | special =>
      rw [Node.filesAt, ite_self]
      exact ih

theorem filesIn_sorted (before : String) (entries : Entries) :
    (filesIn before (sortedEntries entries)).Perm (filesIn before entries) := by
  have hflat : ∀ entries : Entries, filesIn before entries = entries.flatMap fun entry =>
      if leftOut entry.1 entry.2 then [] else entry.2.filesAt (relativePath before entry.1) := by
    intro entries
    induction entries with
    | nil => rfl
    | cons entry entries ih => rw [filesIn, ih, List.flatMap_cons]
  rw [hflat, hflat]
  exact (List.perm_insertionSort byName entries).flatMap_right _

/-- A walk finds the files of its directories. -/
theorem walkOrder_perm (pending : List (String × Entries)) :
    (walkOrder pending).Perm
      (pending.flatMap fun directory => filesIn directory.1 directory.2) := by
  induction pending using walkOrder.induct with
  | case1 => rw [walkOrder]; exact List.Perm.refl _
  | case2 before entries pending ih =>
    rw [walkOrder, List.flatMap_cons]
    rw [List.flatMap_append] at ih
    have hown := (filesIn_perm before (sortedEntries entries)).symm.trans
      (filesIn_sorted before entries)
    refine (List.Perm.append_left _ ih).trans ?_
    rw [← List.append_assoc]
    exact List.Perm.append_right _ hown

theorem properAll_iff {entries : Entries} :
    properAll entries ↔ ∀ entry ∈ entries, entry.2.Proper := by
  induction entries with
  | nil => simp [properAll]
  | cons entry entries ih => rw [properAll, ih, List.forall_mem_cons]

theorem ProperDir.sorted {entries : Entries} (h : ProperDir entries) :
    ProperDir (sortedEntries entries) := by
  have hperm := List.perm_insertionSort byName entries
  refine ⟨⟨?_, ?_⟩, ?_⟩
  · exact (hperm.map Prod.fst).nodup_iff.mpr h.names.distinct
  · exact fun entry he => h.names.plain entry (hperm.mem_iff.mp he)
  · exact properAll_iff.mpr fun entry he => properAll_iff.mp h.nodes entry (hperm.mem_iff.mp he)

theorem ProperDir.ownDirs {entries : Entries} (h : properAll entries) (before : String) :
    ∀ directory ∈ ownDirs before entries, ProperDir directory.2 := by
  intro directory hdirectory
  obtain ⟨⟨name, node⟩, hentry, hown⟩ := List.mem_filterMap.mp hdirectory
  have hproper := properAll_iff.mp h _ hentry
  cases node with
  | dir sub =>
    simp only at hown
    split_ifs at hown
    rw [← Option.some.inj hown]
    exact ⟨hproper.1, hproper.2⟩
  | file contents => cases hown
  | symlink => cases hown
  | special => cases hown

/-- What every path below a directory starts with. -/
def startOf (before : String) : List Char :=
  if before.isEmpty then [] else before.toList ++ ['/']

theorem relativePath_toList (before name : String) :
    (relativePath before name).toList = startOf before ++ name.toList := by
  unfold relativePath startOf
  split_ifs
  · rfl
  · simp

/-- A path is an entry's, or lies below it. -/
def Under (before name path : String) : Prop :=
  ∃ rest : List Char, path.toList = startOf before ++ name.toList ++ rest ∧
    (rest = [] ∨ rest.head? = some '/')

/-- A path lies under one entry only. -/
theorem under_unique {before name other path : String} (hname : '/' ∉ name.toList)
    (hother : '/' ∉ other.toList) (h : Under before name path) (h' : Under before other path) :
    name = other := by
  have hstem : ∀ {n : List Char} {rest : List Char}, '/' ∉ n →
      (rest = [] ∨ rest.head? = some '/') → (n ++ rest).takeWhile (· != '/') = n := by
    intro n rest hn hrest
    have hall : ∀ c ∈ n, (c != '/') = true := by
      intro c hc
      rw [bne_iff_ne]
      intro hslash
      rw [hslash] at hc
      exact hn hc
    rw [List.takeWhile_append_of_pos hall]
    rcases hrest with hrest | hrest
    · simp [hrest]
    · obtain ⟨tail, rfl⟩ := List.head?_eq_some_iff.mp hrest
      simp
  obtain ⟨rest, hpath, hrest⟩ := h
  obtain ⟨rest', hpath', hrest'⟩ := h'
  rw [hpath, List.append_assoc, List.append_assoc] at hpath'
  have hsame := List.append_cancel_left hpath'
  apply String.toList_inj.mp
  rw [← hstem hname hrest, hsame, hstem hother hrest']

theorem relativePath_ne {before name : String} (h : name ≠ "") : relativePath before name ≠ "" := by
  intro hempty
  have hlist := relativePath_toList before name
  rw [hempty] at hlist
  have hnil := (List.append_eq_nil_iff.mp hlist.symm).2
  exact h (String.toList_inj.mp hnil)

mutual

theorem Node.filesAt_under {path : String} (hpath : path ≠ "") :
    (node : Node) → node.Proper → ∀ file ∈ node.filesAt path,
      ∃ rest : List Char, file.1.toList = path.toList ++ rest ∧
        (rest = [] ∨ rest.head? = some '/')
  | .file contents, _ => by
    intro file hfile
    rw [Node.filesAt, List.mem_singleton] at hfile
    exact ⟨[], by rw [hfile, List.append_nil], .inl rfl⟩
  | .dir entries, hproper => by
    intro file hfile
    rw [Node.filesAt] at hfile
    obtain ⟨entry, -, rest, hfile, -⟩ :=
      filesIn_under path entries hproper.1.plain hproper.2 file hfile
    have hstart : startOf path = path.toList ++ ['/'] := by
      rw [startOf, if_neg (by simpa using hpath)]
    refine ⟨'/' :: (entry.1.toList ++ rest), ?_, .inr rfl⟩
    rw [hfile, hstart]
    simp
  | .symlink, hproper => False.elim hproper
  | .special, hproper => False.elim hproper

/-- Every file below a directory lies under one of its entries. -/
theorem filesIn_under (before : String) : (entries : List (String × Node)) →
    (∀ entry ∈ entries, entry.1 ≠ "" ∧ '/' ∉ entry.1.toList) → properAll entries →
      ∀ file ∈ filesIn before entries, ∃ entry ∈ entries, Under before entry.1 file.1
  | [], _, _ => by simp [filesIn]
  | (name, node) :: entries, hnames, hproper => by
    intro file hfile
    obtain ⟨hname, hothers⟩ := List.forall_mem_cons.mp hnames
    rw [filesIn, List.mem_append] at hfile
    rcases hfile with hfile | hfile
    · split_ifs at hfile
      · cases hfile
      · obtain ⟨rest, hpath, hrest⟩ :=
          Node.filesAt_under (relativePath_ne hname.1) node hproper.1 file hfile
        rw [relativePath_toList] at hpath
        exact ⟨(name, node), by simp, rest, hpath, hrest⟩
    · obtain ⟨entry, hentry, hunder⟩ := filesIn_under before entries hothers hproper.2 file hfile
      exact ⟨entry, List.mem_cons_of_mem _ hentry, hunder⟩

end

mutual

theorem Node.filesAt_nodup (path : String) :
    (node : Node) → node.Proper → ((node.filesAt path).map Prod.fst).Nodup
  | .file contents, _ => by simp [Node.filesAt]
  | .dir entries, hproper => by
    rw [Node.filesAt]
    exact filesIn_nodup path entries hproper.1.distinct hproper.1.plain hproper.2
  | .symlink, hproper => False.elim hproper
  | .special, hproper => False.elim hproper

/-- No two files have one path. -/
theorem filesIn_nodup (before : String) : (entries : List (String × Node)) →
    (entries.map Prod.fst).Nodup → (∀ entry ∈ entries, entry.1 ≠ "" ∧ '/' ∉ entry.1.toList) →
      properAll entries → ((filesIn before entries).map Prod.fst).Nodup
  | [], _, _, _ => by simp [filesIn]
  | (name, node) :: entries, hdistinct, hnames, hproper => by
    obtain ⟨hname, hothers⟩ := List.forall_mem_cons.mp hnames
    rw [List.map_cons, List.nodup_cons] at hdistinct
    rw [filesIn, List.map_append, List.nodup_append]
    refine ⟨?_, filesIn_nodup before entries hdistinct.2 hothers hproper.2, ?_⟩
    · split_ifs
      · simp
      · exact Node.filesAt_nodup (relativePath before name) node hproper.1
    · intro path hpath other hother hsame
      obtain ⟨file, hfile, rfl⟩ := List.mem_map.mp hpath
      obtain ⟨later, hlater, rfl⟩ := List.mem_map.mp hother
      split_ifs at hfile
      · cases hfile
      · obtain ⟨rest, hpath, hrest⟩ :=
          Node.filesAt_under (relativePath_ne hname.1) node hproper.1 file hfile
        rw [relativePath_toList] at hpath
        obtain ⟨entry, hentry, hunder⟩ :=
          filesIn_under before entries hothers hproper.2 later hlater
        have hfirst : Under before name later.1 := by
          rw [← hsame]
          exact ⟨rest, hpath, hrest⟩
        have hentryName := under_unique hname.2 (hothers entry hentry).2 hfirst hunder
        apply hdistinct.1
        rw [hentryName]
        exact List.mem_map.mpr ⟨entry, hentry, rfl⟩

end

theorem lookup_iff {entries : Entries} (h : (entries.map Prod.fst).Nodup) {name : String}
    {node : Node} : entries.lookup name = some node ↔ (name, node) ∈ entries := by
  induction entries with
  | nil => simp
  | cons entry entries ih =>
    rw [List.map_cons, List.nodup_cons] at h
    rw [List.lookup_cons, List.mem_cons]
    by_cases hname : name = entry.1
    · have hbeq : (name == entry.1) = true := by simpa using hname
      rw [hbeq]
      constructor
      · intro hnode
        exact .inl (Prod.ext hname (Option.some.inj hnode).symm)
      · intro hmem
        rcases hmem with rfl | hmem
        · rfl
        · exact absurd (List.mem_map.mpr ⟨_, hmem, hname⟩) h.1
    · have hbeq : (name == entry.1) = false := by simpa using hname
      rw [hbeq]
      simp only
      rw [ih h.2]
      constructor
      · exact .inr
      · intro hmem
        rcases hmem with rfl | hmem
        · exact absurd rfl hname
        · exact hmem

/-- A file at the root is found under its name. -/
theorem root_file {root : Entries} (h : ProperDir root) {name : String} {contents : List UInt8}
    (hname : '/' ∉ name.toList) (hshown : isHidden name = false) :
    (name, contents) ∈ filesIn "" root ↔ root.lookup name = some (.file contents) := by
  rw [lookup_iff h.names.distinct]
  have hnodes := h.nodes
  have hnames := h.names.plain
  clear h
  induction root with
  | nil => simp [filesIn]
  | cons entry entries ih =>
    obtain ⟨first, node⟩ := entry
    obtain ⟨hfirst, hothers⟩ := List.forall_mem_cons.mp hnames
    have hrest : (name, contents) ∈ filesIn "" entries ↔ (name, Node.file contents) ∈ entries :=
      ih hnodes.2 hothers
    rw [filesIn, List.mem_append, hrest, List.mem_cons, Prod.mk.injEq]
    apply or_congr_left
    have hpath : relativePath "" first = first := rfl
    rw [hpath]
    cases node with
    | file data =>
      by_cases hsame : name = first
      · rw [← hsame]
        simp [leftOut, hshown, Node.filesAt]
      · simp only [Node.filesAt, hsame, false_and, iff_false]
        split_ifs
        · simp
        · simp [hsame]
    | dir sub =>
      simp only [reduceCtorEq, and_false, iff_false]
      split_ifs
      · simp
      · intro hmem
        rw [Node.filesAt] at hmem
        obtain ⟨entry, -, rest, hunder, -⟩ :=
          filesIn_under first sub hnodes.1.1.plain hnodes.1.2 _ hmem
        apply hname
        rw [hunder, startOf, if_neg (by simpa using hfirst.1)]
        simp
    | symlink => exact False.elim hnodes.1
    | special => exact False.elim hnodes.1

end QuantForge.Bundle
