import QuantForge.Protocol.Bundle

namespace QuantForge.Bundle

theorem candidatesOf_read {files : List (String × List UInt8)} :
    ∀ candidate ∈ candidatesOf files, candidate.contents.isSome = true := by
  intro candidate hc
  obtain ⟨file, -, rfl⟩ := List.mem_map.mp hc
  rfl

theorem sorted_pairwise (candidates : List Candidate) :
    (candidates.insertionSort byPath).Pairwise byPath := by
  have htotal : Std.Total byPath := ⟨fun a b => by
    simpa [byPath] using Bytes.le_total (Bytes.utf8 a.path) (Bytes.utf8 b.path)⟩
  have htrans : IsTrans Candidate byPath := ⟨fun a b c => Bytes.le_trans _ _ _⟩
  exact List.pairwise_insertionSort byPath candidates

/-- Candidates with different paths sort to one list, in whatever order they
came. -/
theorem sorted_perm {candidates other : List Candidate} (hperm : candidates.Perm other)
    (hnodup : (candidates.map Candidate.path).Nodup) :
    candidates.insertionSort byPath = other.insertionSort byPath := by
  have hsorted := (List.perm_insertionSort byPath candidates).trans
    (hperm.trans (List.perm_insertionSort byPath other).symm)
  apply List.Perm.eq_of_pairwise _ (sorted_pairwise candidates) (sorted_pairwise other) hsorted
  intro a b ha hb hab hba
  have ha : a ∈ candidates := (List.mem_insertionSort byPath).mp ha
  have hb : b ∈ candidates := hperm.mem_iff.mpr ((List.mem_insertionSort byPath).mp hb)
  have hpath : a.path = b.path := Bytes.utf8_injective (Bytes.le_antisymm _ _ hab hba)
  exact List.inj_on_of_nodup_map hnodup ha hb hpath

theorem find_perm {candidates other : List Candidate} (hperm : candidates.Perm other)
    (hnodup : (candidates.map Candidate.path).Nodup) (path : String) :
    (candidates.find? fun candidate => candidate.path == path) =
      other.find? fun candidate => candidate.path == path := by
  cases hfind : candidates.find? fun candidate => candidate.path == path with
  | none =>
    symm
    apply List.find?_eq_none.mpr
    intro candidate hc
    exact List.find?_eq_none.mp hfind candidate (hperm.mem_iff.mpr hc)
  | some found =>
    have hmem := List.mem_of_find?_eq_some hfind
    have hpath := List.find?_some hfind
    cases hother : other.find? fun candidate => candidate.path == path with
    | none => exact absurd hpath (List.find?_eq_none.mp hother found (hperm.mem_iff.mp hmem))
    | some first =>
      have hfirst := List.mem_of_find?_eq_some hother
      have hfirst_path := List.find?_some hother
      have hsame : found.path = first.path := by
        rw [beq_iff_eq] at hpath hfirst_path
        rw [hpath, hfirst_path]
      rw [List.inj_on_of_nodup_map hnodup hmem (hperm.mem_iff.mpr hfirst) hsame]

theorem passes_paths {limits : BundleLimits} {candidates : List Candidate}
    {files : List BundleFile} (h : List.Forall₂ (Passes limits) candidates files) :
    candidates.map Candidate.path = files.map fun file => file.path.text := by
  induction h with
  | nil => rfl
  | cons hpass _ ih => rw [List.map_cons, List.map_cons, ih, hpass.path_eq]

/-- Candidates read in memory that pass are the ones their files make. -/
theorem passes_pairs {limits : BundleLimits} {candidates : List Candidate}
    {files : List BundleFile} (h : List.Forall₂ (Passes limits) candidates files)
    (hread : ∀ candidate ∈ candidates, ∃ file : String × List UInt8,
      candidate = Candidate.read file.1 file.2) :
    candidates = candidatesOf (files.map pairOf) := by
  induction h with
  | nil => rfl
  | @cons candidate file candidates files hpass _ ih =>
    obtain ⟨pair, hpair⟩ := hread candidate (by simp)
    have hpath : pair.1 = file.path.text := by rw [hpass.path_eq, hpair]; rfl
    have hcontents : pair.2 = file.contents := by
      have hsome := hpass.contents_eq
      rw [hpair] at hsome
      simpa [Candidate.read] using hsome
    have hfirst : candidate = Candidate.read file.path.text file.contents := by
      rw [hpair, hpath, hcontents]
    rw [hfirst, ih fun c hc => hread c (by simp [hc])]
    rfl

/-- No file that passed is larger than a tar header can record. -/
theorem passes_size {limits : BundleLimits} {files : List BundleFile}
    (h : List.Forall₂ (Passes limits) (candidatesOf (files.map pairOf)) files) :
    ∀ file ∈ files, file.contents.length < 8 ^ 11 := by
  induction files with
  | nil => simp
  | cons file files ih =>
    rw [List.map_cons, candidatesOf, List.map_cons, List.forall₂_cons] at h
    intro other ho
    rcases List.mem_cons.mp ho with rfl | ho
    · have hsize := h.1.size_le
      simp only [Candidate.read, pairOf, saturating, u64Max, BundleLimits.fileLimit,
        maxTarFileBytes] at hsize
      omega
    · exact ih h.2 other ho

/-- A path's bytes: some, at most what a header's name field holds, and no
NUL. -/
theorem path_bytes (path : BundlePath) :
    Bytes.utf8 path.text ≠ [] ∧ (Bytes.utf8 path.text).length ≤ 100 ∧
      ∀ byte ∈ Bytes.utf8 path.text, byte ≠ 0 := by
  obtain ⟨hne, hascii, hlen, -⟩ := pathFault_none path.keeps
  have hchars := path_chars path.keeps
  have hbytes := Bytes.utf8_ascii hascii
  refine ⟨by rw [hbytes]; simpa using hne, hlen, ?_⟩
  intro byte hb
  rw [hbytes] at hb
  obtain ⟨c, hc, rfl⟩ := List.mem_map.mp hb
  have hsmall : c.toNat < 128 := by simpa using List.all_eq_true.mp hascii c hc
  intro hzero
  have hnat : c.toNat = 0 := by
    have hmod := congrArg UInt8.toNat hzero
    rw [UInt8.toNat_ofNat'] at hmod
    have hz : (0 : UInt8).toNat = 0 := rfl
    omega
  have hnul : c = '\x00' := Char.toNat_inj.mp hnat
  rcases hchars c hc with hslash | hok
  · rw [hnul] at hslash
    exact absurd hslash (by decide)
  · rw [hnul] at hok
    exact absurd hok (by decide)

/-- Files in rising order are ones a canonical archive lists. -/
theorem listed_files {files : List BundleFile} {previous : Option (List UInt8)}
    (hrising : files.Pairwise fun first second =>
      Bytes.lt (Bytes.utf8 first.path.text) (Bytes.utf8 second.path.text) = true)
    (hsize : ∀ file ∈ files, file.contents.length < 8 ^ 11)
    (hafter : ∀ before, previous = some before →
      ∀ file ∈ files, Bytes.lt before (Bytes.utf8 file.path.text) = true) :
    Listed previous (files.map pairOf) := by
  induction files generalizing previous with
  | nil => exact .nil
  | cons file files ih =>
    obtain ⟨hfirst, hrest⟩ := List.pairwise_cons.mp hrising
    obtain ⟨hne, hlen, hchars⟩ := path_bytes file.path
    apply Listed.cons hne hlen hchars (hsize file (by simp))
    · intro before hb
      exact hafter before hb file (by simp)
    · apply ih hrest fun f hf => hsize f (by simp [hf])
      intro before hb f hf
      rw [← Option.some.inj hb]
      exact hfirst f hf

def dataBytes (files : List (String × List UInt8)) : Nat :=
  (files.map fun file => file.2.length).sum

/-- A file takes at most 1023 bytes beside its data, and the end 1024. -/
theorem tarOf_length_le (files : List (String × List UInt8)) :
    (tarOf files).length ≤ files.length * 1023 + dataBytes files + 1024 := by
  induction files with
  | nil =>
    have hend : (tarOf []).length = 1024 := by
      simp only [tarOf, List.flatMap_nil, List.nil_append, zeros_length]
      rfl
    rw [hend]
    omega
  | cons file files ih =>
    obtain ⟨name, data⟩ := file
    have hpad := padding_lt data.length
    have hsum : dataBytes ((name, data) :: files) = data.length + dataBytes files := rfl
    rw [tarOf_cons, List.length_append, record_length, List.length_cons, hsum]
    unfold block at hpad ⊢
    omega

/-- The total a check counts is the data's, saturating. -/
theorem total_saturates (files : List (String × List UInt8)) (seen : Nat) :
    (candidatesOf files).foldl (fun total candidate => saturating (total + candidate.size))
      (saturating seen) = saturating (seen + dataBytes files) := by
  induction files generalizing seen with
  | nil => simp [candidatesOf, dataBytes]
  | cons file files ih =>
    have hstep : saturating (saturating seen + saturating file.2.length) =
        saturating (seen + file.2.length) := by
      unfold saturating
      omega
    have hsum : dataBytes (file :: files) = file.2.length + dataBytes files := rfl
    rw [hsum, ← Nat.add_assoc, ← ih, ← hstep]
    rfl

theorem write_pairs (files : List BundleFile) : write files = tarOf (files.map pairOf) := by
  rw [write, tarOf, List.flatMap_map]
  rfl

theorem listed_sorted {files : List (String × List UInt8)} {previous : Option (List UInt8)}
    (h : Listed previous files) :
    (candidatesOf files).Pairwise byPath ∧
      ∀ before, previous = some before → ∀ candidate ∈ candidatesOf files,
        Bytes.le before (Bytes.utf8 candidate.path) = true := by
  induction h with
  | nil => simp [candidatesOf]
  | @cons previous name data rest _ _ _ _ ordered _ ih =>
    have hafter := ih.2 (Bytes.utf8 name) rfl
    refine ⟨List.pairwise_cons.mpr ⟨hafter, ih.1⟩, ?_⟩
    intro before hb candidate hc
    have hname := ((Bytes.lt_iff _ _).mp (ordered before hb)).1
    rcases List.mem_cons.mp hc with rfl | hc
    · exact hname
    · exact Bytes.le_trans _ _ _ hname (hafter candidate hc)

theorem candidatesOf_injective {files other : List (String × List UInt8)}
    (h : candidatesOf files = candidatesOf other) : files = other := by
  apply List.map_injective_iff.mpr _ h
  intro first second heq
  simp only [Candidate.read, Candidate.mk.injEq, Option.some.injEq] at heq
  exact Prod.ext heq.1 heq.2.2

section

variable [TomlParser]

/-- An accepted set of files: sound as it is sorted, with no path twice. -/
theorem accepted_sound {files : List (String × List UInt8)} {limits : BundleLimits} {b : Bundle}
    (h : Accepted (candidatesOf files) limits b) :
    Sound limits ((candidatesOf files).insertionSort byPath) b.files ∧
      ((candidatesOf files).map Candidate.path).Nodup := by
  obtain ⟨hsound, -⟩ := check_sound candidatesOf_read h.problems_nil
  rw [← h.files_eq] at hsound
  refine ⟨hsound, ?_⟩
  have hpaths := passes_paths hsound.passes
  have hsorted : (((candidatesOf files).insertionSort byPath).map Candidate.path).Nodup := by
    rw [hpaths]
    exact hsound.nodup
  exact ((List.perm_insertionSort byPath _).map Candidate.path).nodup_iff.mp hsorted

theorem accepted_perm {files : List (String × List UInt8)} {other : List Candidate}
    {limits : BundleLimits} {b : Bundle} (hperm : (candidatesOf files).Perm other)
    (h : Accepted (candidatesOf files) limits b) : Accepted other limits b := by
  obtain ⟨-, hnodup⟩ := accepted_sound h
  have hcheck : check other limits = check (candidatesOf files) limits := by
    rw [check, check, sorted_perm hperm hnodup]
  have hbytes : manifestBytes other = manifestBytes (candidatesOf files) := by
    rw [manifestBytes, manifestBytes, find_perm hperm hnodup]
  refine ⟨?_, ?_, ?_⟩
  · rw [hcheck]
    exact h.problems_nil
  · rw [hcheck]
    exact h.files_eq
  · rw [hcheck, hbytes]
    exact h.manifest_eq

/-- The candidates of an accepted set, sorted, are the ones its bundle's
files make. -/
theorem accepted_sorted {files : List (String × List UInt8)} {limits : BundleLimits} {b : Bundle}
    (h : Accepted (candidatesOf files) limits b) :
    (candidatesOf files).insertionSort byPath = candidatesOf (b.files.map pairOf) := by
  apply passes_pairs (accepted_sound h).1.passes
  intro candidate hc
  obtain ⟨file, -, rfl⟩ := List.mem_map.mp ((List.mem_insertionSort byPath).mp hc)
  exact ⟨file, rfl⟩

/-- A bundle's files stand in strictly rising order of their paths' bytes. -/
theorem accepted_rising {files : List (String × List UInt8)} {limits : BundleLimits} {b : Bundle}
    (h : Accepted (candidatesOf files) limits b) :
    b.files.Pairwise fun first second =>
      Bytes.lt (Bytes.utf8 first.path.text) (Bytes.utf8 second.path.text) = true := by
  have hsorted := sorted_pairwise (candidatesOf files)
  rw [accepted_sorted h, candidatesOf, List.map_map, List.pairwise_map] at hsorted
  have hnodup := (accepted_sound h).1.nodup
  rw [List.Nodup, List.pairwise_map] at hnodup
  apply (hsorted.and hnodup).imp
  intro first second hboth
  apply (Bytes.lt_iff _ _).mpr
  exact ⟨hboth.1, fun heq => hboth.2 (Bytes.utf8_injective heq)⟩

theorem accepted_listed {files : List (String × List UInt8)} {limits : BundleLimits} {b : Bundle}
    (h : Accepted (candidatesOf files) limits b) : Listed none (b.files.map pairOf) := by
  apply listed_files (accepted_rising h)
  · intro file hf
    have hpasses := (accepted_sound h).1.passes
    rw [accepted_sorted h] at hpasses
    exact passes_size hpasses file hf
  · intro before hb
    cases hb

theorem accepted_fits {files : List (String × List UInt8)} {limits : BundleLimits} {b : Bundle}
    (h : Accepted (candidatesOf files) limits b) :
    saturating b.canonicalTar.length ≤ limits.maxArchiveBytes := by
  have hsound := (accepted_sound h).1
  rw [accepted_sorted h] at hsound
  have hcount := hsound.count_le
  have htotal := hsound.total_le
  have hzero : saturating 0 = 0 := rfl
  rw [← hzero, total_saturates, Nat.zero_add] at htotal
  have hlen := tarOf_length_le (b.files.map pairOf)
  rw [← write_pairs] at hlen
  have hfiles : limits.maxFiles.toNat < 2 ^ 32 := limits.maxFiles.toNat_lt
  have hbytes : limits.maxTotalBytes.toNat < 2 ^ 64 := limits.maxTotalBytes.toNat_lt
  simp only [candidatesOf, List.length_map] at hcount hlen
  unfold canonicalTar BundleLimits.maxArchiveBytes
  unfold saturating u64Max at *
  omega

/-- A bundle's tar reads back to the bundle. -/
theorem accepted_roundtrip {files : List (String × List UInt8)} {limits : BundleLimits}
    {b : Bundle} (h : Accepted (candidatesOf files) limits b) :
    fromCanonicalTar b.canonicalTar limits = some (.ok b) := by
  have hread : read b.canonicalTar limits = some (.ok (candidatesOf (b.files.map pairOf))) :=
    read_ok.mpr ⟨accepted_fits h, _, accepted_listed h, write_pairs b.files, rfl⟩
  have hperm : (candidatesOf files).Perm (candidatesOf (b.files.map pairOf)) := by
    rw [← accepted_sorted h]
    exact (List.perm_insertionSort byPath _).symm
  rw [fromCanonicalTar, hread, Option.map_some]
  exact congrArg some (checkBundle_ok.mpr (accepted_perm hperm h))

/-- What the reader accepts is the tar of the bundle it answers. -/
theorem decoded_tar {tar : List UInt8} {limits : BundleLimits} {b : Bundle}
    (h : fromCanonicalTar tar limits = some (.ok b)) : b.canonicalTar = tar := by
  unfold fromCanonicalTar at h
  cases hread : read tar limits with
  | none => simp [hread] at h
  | some found =>
    cases found with
    | error problem => simp [hread] at h
    | ok candidates =>
      rw [hread, Option.map_some, Option.some.injEq] at h
      obtain ⟨-, files, hlisted, rfl, rfl⟩ := read_ok.mp hread
      have haccepted := checkBundle_ok.mp h
      have hsorted := accepted_sorted haccepted
      rw [(listed_sorted hlisted).1.insertionSort_eq] at hsorted
      rw [canonicalTar, write_pairs, candidatesOf_injective hsorted]

/-- The canonical tar is a bijection between the bundles some files make
under the limits and the byte strings the reader accepts; the reader never
panics; and the order of the files does not matter. -/
theorem canonical_tar_bijective (limits : BundleLimits) :
    (∀ files b, fromFiles files limits = .ok b →
        fromCanonicalTar b.canonicalTar limits = some (.ok b) ∧
          saturating b.canonicalTar.length ≤ limits.maxArchiveBytes) ∧
      (∀ tar b, fromCanonicalTar tar limits = some (.ok b) → b.canonicalTar = tar) ∧
      (∀ tar, (read tar limits).isSome = true) ∧
      ∀ files other b, files.Perm other → fromFiles files limits = .ok b →
        fromFiles other limits = .ok b ∧
          ∀ [Sha256] c, fromFiles other limits = .ok c → c.codeHash = b.codeHash := by
  refine ⟨?_, fun tar b => decoded_tar, fun tar => read_total tar limits, ?_⟩
  · intro files b h
    have haccepted := checkBundle_ok.mp h
    exact ⟨accepted_roundtrip haccepted, accepted_fits haccepted⟩
  · intro files other b hperm h
    have hsame : fromFiles other limits = .ok b :=
      checkBundle_ok.mpr (accepted_perm (hperm.map _) (checkBundle_ok.mp h))
    refine ⟨hsame, ?_⟩
    intro _ c hc
    rw [hsame, Except.ok.injEq] at hc
    rw [hc]

end

def sampleText : String :=
  "format = 1\nentry = \"pkg.py:Hold\"\nengine = \">=0.3.0, <0.4.0\"\npython = \"3.12\"\n"

/-- The sample manifest as the TOML crate reads it. -/
def sampleTable : TomlTable :=
  [("engine", .string ">=0.3.0, <0.4.0"), ("entry", .string "pkg.py:Hold"),
    ("format", .integer 1), ("python", .string "3.12")]

@[reducible] def sampleParser : TomlParser :=
  ⟨fun text =>
    if text = sampleText then .ok sampleTable else .error ⟨"expected the sample", none⟩⟩

attribute [local instance] sampleParser

def samplePath : BundlePath := ⟨"pkg.py", by decide, by decide⟩

def sampleManifest : Manifest :=
  ⟨1, ⟨samplePath, "pkg", "Hold"⟩, ⟨[(.atLeast, ⟨0, 3, 0⟩), (.below, ⟨0, 4, 0⟩)]⟩, ⟨3, 12⟩,
    Params.default, []⟩

theorem sample_parse {paths : List BundlePath} (h : samplePath ∈ paths) :
    Manifest.parse (Bytes.utf8 sampleText) paths = .ok sampleManifest := by
  apply Manifest.parse_ok.mpr
  refine ⟨sampleTable, Manifest.document_ok (by decide) (by decide) rfl rfl, ?_⟩
  refine ⟨rfl, ?_, rfl, rfl, rfl, rfl, rfl⟩
  have hentry : Manifest.parsed Entry.parse sampleTable "entry" .entryInvalid
      "\"strategy.py:MyStrategy\"" = .ok sampleManifest.entry := rfl
  rw [Manifest.entry_, hentry]
  exact if_pos h

def sampleFiles : List (String × List UInt8) :=
  [("quantforge.toml", Bytes.utf8 sampleText), ("pkg.py", Bytes.utf8 "class Hold:\n    pass\n")]

def sampleBundle : Bundle :=
  ⟨sampleManifest, (check (candidatesOf sampleFiles) BundleLimits.default).files⟩

theorem sampleFiles_accepted : fromFiles sampleFiles BundleLimits.default = .ok sampleBundle := by
  apply checkBundle_ok.mpr
  refine ⟨by decide +kernel, rfl, Bytes.utf8 sampleText, by decide, by decide +kernel, ?_⟩
  apply sample_parse
  decide +kernel

theorem sampleBundle_tar_reads :
    fromCanonicalTar sampleBundle.canonicalTar BundleLimits.default = some (.ok sampleBundle) :=
  ((canonical_tar_bijective BundleLimits.default).1 sampleFiles sampleBundle
    sampleFiles_accepted).1

end QuantForge.Bundle
