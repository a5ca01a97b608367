import QuantForge.Protocol.Bundle.Collisions
import Mathlib.Data.Set.Function

namespace QuantForge.Bundle

/-- A text without regard to case. -/
abbrev fold (text : List Char) : List Char := text.map Ascii.toLower

/-- What a name stands for, with the spelling it was made under. Each file is
a node of its own. -/
inductive Filesystem.Entry
  | file (spelling : List Char) (node : Nat)
  | directory (spelling : List Char)
  deriving DecidableEq

def Filesystem.Entry.spelling : Filesystem.Entry → List Char
  | file spelling _ => spelling
  | directory spelling => spelling

/-- A filesystem that finds a name in any case and keeps the spelling it was
made under. -/
structure Filesystem where
  entry : List Char → Option Filesystem.Entry
  named : ∀ name e, entry name = some e → fold e.spelling = name
  placed : ∀ name e, entry name = some e →
    ∀ d ∈ directories e.spelling, entry (fold d) = some (.directory d)

/-- Every path is a file of its own, at its own spelling. -/
def Filesystem.Holds (fs : Filesystem) (paths : List BundlePath) : Prop :=
  ∃ node : Fin paths.length → Nat, Function.Injective node ∧
    ∀ i, fs.entry (folded paths[i]) = some (.file paths[i].text.toList (node i))

/-- The paths and the directories they stand in. -/
def names (paths : List BundlePath) : Set (List Char) :=
  {text | (∃ path ∈ paths, path.text.toList = text) ∨ text ∈ neededDirectories paths}

/-- No path is listed twice, no two names fold alike, and no file folds to a
directory's name. -/
structure Apart (paths : List BundlePath) : Prop where
  nodup : paths.Nodup
  injective : Set.InjOn fold (names paths)
  filed : ∀ path ∈ paths, ∀ d ∈ neededDirectories paths, fold d ≠ folded path

theorem toLower_slash (c : Char) : Ascii.toLower c = '/' ↔ c = '/' := by
  constructor
  · intro h
    unfold Ascii.toLower at h
    split_ifs at h with hupper
    · simp only [Ascii.isUpper, Bool.and_eq_true, decide_eq_true_eq] at hupper
      have hlow : 65 ≤ c.toNat := hupper.1
      have hhigh : c.toNat ≤ 90 := hupper.2
      have hletters : ∀ n < 91, 65 ≤ n → Char.ofNat (n + 32) ≠ '/' := by decide
      exact absurd h (hletters c.toNat (by omega) hlow)
    · exact h
  · intro h
    rw [h]
    rfl

/-- A directory of a text is what stands before one of its slashes. -/
theorem mem_directoriesFrom {before text d : List Char} :
    d ∈ directoriesFrom before text ↔ ∃ within rest, text = within ++ '/' :: rest ∧
      d = before ++ within := by
  induction text generalizing before with
  | nil => simp [directoriesFrom]
  | cons c cs ih =>
    have hstep : d ∈ directoriesFrom before (c :: cs) ↔
        (c = '/' ∧ d = before) ∨ d ∈ directoriesFrom (before ++ [c]) cs := by
      rw [directoriesFrom]
      split_ifs with hslash
      · simp [hslash]
      · simp [hslash]
    rw [hstep, ih]
    constructor
    · intro h
      rcases h with h | h
      · obtain ⟨hslash, hd⟩ := h
        exact ⟨[], cs, by rw [hslash]; rfl, by rw [hd, List.append_nil]⟩
      · obtain ⟨within, rest, hcs, hd⟩ := h
        exact ⟨c :: within, rest, by rw [hcs]; rfl, by rw [hd, List.append_assoc]; rfl⟩
    · intro h
      obtain ⟨within, rest, htext, hd⟩ := h
      cases within with
      | nil =>
        rw [List.nil_append, List.cons.injEq] at htext
        exact .inl ⟨htext.1, by rw [hd, List.append_nil]⟩
      | cons first within =>
        rw [List.cons_append, List.cons.injEq] at htext
        refine .inr ⟨within, rest, htext.2, ?_⟩
        rw [hd, htext.1, List.append_assoc]
        rfl

theorem mem_directories {text d : List Char} :
    d ∈ directories text ↔ ∃ rest, text = d ++ '/' :: rest := by
  rw [directories, mem_directoriesFrom]
  constructor
  · intro h
    obtain ⟨within, rest, htext, hd⟩ := h
    exact ⟨rest, by rw [htext, hd, List.nil_append]⟩
  · intro h
    obtain ⟨rest, htext⟩ := h
    exact ⟨d, rest, htext, rfl⟩

/-- A directory stands in the directories of what it holds. -/
theorem directories_within {text d e : List Char} (hd : d ∈ directories text)
    (he : e ∈ directories d) : e ∈ directories text := by
  rw [mem_directories] at hd he ⊢
  obtain ⟨rest, htext⟩ := hd
  obtain ⟨inner, hinner⟩ := he
  exact ⟨inner ++ '/' :: rest, by rw [htext, hinner, List.append_assoc]; rfl⟩

theorem directoriesFrom_fold (before text : List Char) :
    directoriesFrom (fold before) (fold text) = (directoriesFrom before text).map fold := by
  induction text generalizing before with
  | nil => rfl
  | cons c cs ih =>
    have hnext : fold before ++ [Ascii.toLower c] = fold (before ++ [c]) := by simp [fold]
    have hcons : fold (c :: cs) = Ascii.toLower c :: fold cs := rfl
    rw [hcons, directoriesFrom, directoriesFrom, hnext, ih]
    by_cases hslash : c = '/'
    · rw [if_pos ((toLower_slash c).mpr hslash), if_pos hslash, List.map_cons]
    · have hfolded : Ascii.toLower c ≠ '/' := fun h => hslash ((toLower_slash c).mp h)
      rw [if_neg hfolded, if_neg hslash]

theorem directories_folded (path : BundlePath) :
    directories (folded path) = (directories path.text.toList).map fold :=
  directoriesFrom_fold [] path.text.toList

theorem mem_neededDirectories {paths : List BundlePath} {d : List Char} :
    d ∈ neededDirectories paths ↔ ∃ path ∈ paths, d ∈ directories path.text.toList := by
  rw [neededDirectories, List.mem_flatMap]

theorem text_injective {a b : BundlePath} (h : a.text.toList = b.text.toList) : a = b := by
  cases a
  cases b
  have htext := String.toList_inj.mp h
  simp only at htext
  subst htext
  rfl

/-- The check finds nothing exactly when the names stand apart. -/
theorem collisions_apart {paths : List BundlePath} : collisions paths = [] ↔ Apart paths := by
  rw [collisions_nil]
  constructor
  · intro h
    obtain ⟨hnodup, hfiles, halike⟩ := h
    have hfiled : ∀ path ∈ paths, ∀ d ∈ neededDirectories paths, fold d ≠ folded path := by
      intro path hpath d hd hfold
      obtain ⟨other, hother, hwithin⟩ := mem_neededDirectories.mp hd
      have hmem : fold d ∈ directories (folded other) := by
        rw [directories_folded]
        exact List.mem_map.mpr ⟨d, hwithin, rfl⟩
      apply hfiles other hother (fold d) hmem
      exact List.mem_map.mpr ⟨path, hpath, hfold.symm⟩
    refine ⟨hnodup.of_map, ?_, hfiled⟩
    intro a ha b hb hfold
    rcases ha with ⟨path, hpath, rfl⟩ | ha <;> rcases hb with ⟨other, hother, rfl⟩ | hb
    · have hsame := List.inj_on_of_nodup_map hnodup hpath hother hfold
      rw [hsame]
    · exact absurd hfold.symm (hfiled path hpath b hb)
    · exact absurd hfold (hfiled other hother a ha)
    · exact halike a ha b hb hfold
  · intro h
    refine ⟨?_, ?_, ?_⟩
    · apply List.Nodup.map_on ?_ h.nodup
      intro path hpath other hother hfold
      apply text_injective
      exact h.injective (.inl ⟨path, hpath, rfl⟩) (.inl ⟨other, hother, rfl⟩) hfold
    · intro path hpath directory hdirectory hfile
      rw [directories_folded] at hdirectory
      obtain ⟨d, hd, rfl⟩ := List.mem_map.mp hdirectory
      obtain ⟨other, hother, hfold⟩ := List.mem_map.mp hfile
      exact h.filed other hother d (mem_neededDirectories.mpr ⟨path, hpath, hd⟩) hfold.symm
    · intro d hd e he hfold
      exact h.injective (.inr hd) (.inr he) hfold

namespace Filesystem

/-- What a name stands for once the paths are written, each file's node its
place in the list. -/
def written (paths : List BundlePath) (name : List Char) : Option Entry :=
  match paths.findIdx? fun path => folded path = name with
  | some node => (paths[node]?).map fun path => .file path.text.toList node
  | none => ((neededDirectories paths).find? fun d => fold d = name).map .directory

theorem written_file {paths : List BundlePath} {name : List Char} {e : Entry}
    (h : written paths name = some e) :
    (∃ (node : Nat) (path : BundlePath), paths[node]? = some path ∧ folded path = name ∧
      e = .file path.text.toList node) ∨
    (∃ d ∈ neededDirectories paths, fold d = name ∧ e = .directory d) := by
  unfold written at h
  cases hidx : paths.findIdx? fun path => folded path = name with
  | some node =>
    rw [hidx] at h
    obtain ⟨path, hpath, he⟩ := Option.map_eq_some_iff.mp h
    obtain ⟨hlt, hfold, -⟩ := List.findIdx?_eq_some_iff_getElem.mp hidx
    have hget : paths[node] = path := by
      rw [List.getElem?_eq_getElem hlt] at hpath
      exact Option.some.inj hpath
    rw [hget] at hfold
    exact .inl ⟨node, path, hpath, of_decide_eq_true hfold, he.symm⟩
  | none =>
    rw [hidx] at h
    obtain ⟨d, hd, he⟩ := Option.map_eq_some_iff.mp h
    have hfold := List.find?_some hd
    exact .inr ⟨d, List.mem_of_find?_eq_some hd, of_decide_eq_true hfold, he.symm⟩

theorem written_path {paths : List BundlePath} (h : Apart paths) (i : Fin paths.length) :
    written paths (folded paths[i]) = some (.file paths[i].text.toList i) := by
  have hnodup : (paths.map folded).Nodup := (collisions_nil.mp (collisions_apart.mpr h)).1
  have hidx : (paths.findIdx? fun path => folded path = folded paths[i]) = some i.val := by
    rw [List.findIdx?_eq_some_iff_getElem]
    refine ⟨i.isLt, by simp, ?_⟩
    intro j hj
    have hne : folded paths[j] ≠ folded paths[i] := by
      intro hsame
      have hij : (⟨j, by simp; omega⟩ : Fin (paths.map folded).length) = ⟨i, by simp⟩ :=
        List.nodup_iff_injective_getElem.mp hnodup (by simpa using hsame)
      have := congrArg Fin.val hij
      simp at this
      omega
    simpa using hne
  rw [written, hidx]
  simp

theorem written_directory {paths : List BundlePath} (h : Apart paths) {d : List Char}
    (hd : d ∈ neededDirectories paths) : written paths (fold d) = some (.directory d) := by
  have hidx : (paths.findIdx? fun path => folded path = fold d) = none := by
    rw [List.findIdx?_eq_none_iff]
    intro path hpath
    simpa using (h.filed path hpath d hd).symm
  have hfind : ((neededDirectories paths).find? fun e => fold e = fold d) = some d := by
    cases hfound : (neededDirectories paths).find? fun e => fold e = fold d with
    | none =>
      have hnot := List.find?_eq_none.mp hfound d hd
      simp at hnot
    | some e =>
      have hfold : fold e = fold d := by simpa using List.find?_some hfound
      have hsame := h.injective (.inr (List.mem_of_find?_eq_some hfound)) (.inr hd) hfold
      rw [hsame]
  rw [written, hidx]
  simp only [hfind, Option.map_some]

/-- The filesystem the paths are written to. -/
def ofPaths (paths : List BundlePath) (h : Apart paths) : Filesystem where
  entry := written paths
  named := by
    intro name e he
    rcases written_file he with ⟨node, path, -, hfold, rfl⟩ | ⟨d, -, hfold, rfl⟩
    · exact hfold
    · exact hfold
  placed := by
    intro name e he d hd
    apply written_directory h
    rw [mem_neededDirectories]
    rcases written_file he with ⟨node, path, hpath, -, rfl⟩ | ⟨within, hwithin, -, rfl⟩
    · exact ⟨path, List.mem_of_getElem? hpath, hd⟩
    · obtain ⟨path, hpath, hmem⟩ := mem_neededDirectories.mp hwithin
      exact ⟨path, hpath, directories_within hmem hd⟩

/-- A needed directory is found at its own spelling. -/
theorem Holds.directory {fs : Filesystem} {paths : List BundlePath} (h : fs.Holds paths)
    {d : List Char} (hd : d ∈ neededDirectories paths) :
    fs.entry (fold d) = some (.directory d) := by
  obtain ⟨node, -, hentry⟩ := h
  obtain ⟨path, hpath, hwithin⟩ := mem_neededDirectories.mp hd
  obtain ⟨i, hi, rfl⟩ := List.mem_iff_getElem.mp hpath
  exact fs.placed _ _ (hentry ⟨i, hi⟩) d hwithin

theorem Holds.file {fs : Filesystem} {paths : List BundlePath} (h : fs.Holds paths)
    {path : BundlePath} (hpath : path ∈ paths) :
    ∃ node, fs.entry (folded path) = some (.file path.text.toList node) := by
  obtain ⟨node, -, hentry⟩ := h
  obtain ⟨i, hi, rfl⟩ := List.mem_iff_getElem.mp hpath
  exact ⟨node ⟨i, hi⟩, hentry ⟨i, hi⟩⟩

/-- What a filesystem holds stands apart. -/
theorem Holds.apart {fs : Filesystem} {paths : List BundlePath} (h : fs.Holds paths) :
    Apart paths := by
  have hfiled : ∀ path ∈ paths, ∀ d ∈ neededDirectories paths, fold d ≠ folded path := by
    intro path hpath d hd hfold
    obtain ⟨node, hfile⟩ := h.file hpath
    have hdirectory := h.directory hd
    rw [hfold, hfile] at hdirectory
    cases hdirectory
  refine ⟨?_, ?_, hfiled⟩
  · obtain ⟨node, hinjective, hentry⟩ := h
    rw [List.nodup_iff_injective_getElem]
    intro i j hij
    apply hinjective
    have hi := hentry i
    have hj := hentry j
    have hsame : paths[i] = paths[j] := hij
    rw [hsame, hj] at hi
    simp only [Option.some.injEq, Entry.file.injEq] at hi
    exact hi.2.symm
  · intro a ha b hb hfold
    rcases ha with ⟨path, hpath, rfl⟩ | ha <;> rcases hb with ⟨other, hother, rfl⟩ | hb
    · obtain ⟨node, hfile⟩ := h.file hpath
      obtain ⟨onode, hofile⟩ := h.file hother
      have hsame : folded path = folded other := hfold
      rw [hsame, hofile] at hfile
      simp only [Option.some.injEq, Entry.file.injEq] at hfile
      exact hfile.1.symm
    · exact absurd hfold.symm (hfiled path hpath b hb)
    · exact absurd hfold (hfiled other hother a ha)
    · have hfirst := h.directory ha
      have hsecond := h.directory hb
      rw [hfold, hsecond] at hfirst
      simp only [Option.some.injEq, Entry.directory.injEq] at hfirst
      exact hfirst.symm

theorem holds_iff {paths : List BundlePath} : (∃ fs : Filesystem, fs.Holds paths) ↔ Apart paths := by
  constructor
  · intro h
    obtain ⟨fs, hfs⟩ := h
    exact hfs.apart
  · intro h
    exact ⟨ofPaths paths h, fun i => i, fun i j hij => Fin.ext hij, written_path h⟩

end Filesystem

theorem Apart.perm {paths others : List BundlePath} (h : Apart paths) (hperm : others.Perm paths) :
    Apart others := by
  have hneeded : ∀ d, d ∈ neededDirectories others → d ∈ neededDirectories paths := by
    intro d hd
    obtain ⟨path, hpath, hmem⟩ := mem_neededDirectories.mp hd
    exact mem_neededDirectories.mpr ⟨path, hperm.subset hpath, hmem⟩
  refine ⟨hperm.nodup_iff.mpr h.nodup, ?_, ?_⟩
  · apply h.injective.mono
    intro text htext
    rcases htext with ⟨path, hpath, rfl⟩ | htext
    · exact .inl ⟨path, hperm.subset hpath, rfl⟩
    · exact .inr (hneeded text htext)
  · intro path hpath d hd
    exact h.filed path (hperm.subset hpath) d (hneeded d hd)

/-- The collision check reports nothing exactly when no path is listed twice
and no two names collide without regard to case, which is when a filesystem
that ignores case holds every file at its own spelling, whatever their order. -/
theorem collisions_exact (paths : List BundlePath) :
    (collisions paths = [] ↔ paths.Nodup ∧ Set.InjOn fold (names paths) ∧
      ∀ path ∈ paths, ∀ d ∈ neededDirectories paths, fold d ≠ folded path) ∧
    (collisions paths = [] ↔ ∃ fs : Filesystem, fs.Holds paths) ∧
    ∀ others : List BundlePath, others.Perm paths →
      (collisions others = [] ↔ collisions paths = []) := by
  refine ⟨?_, ?_, ?_⟩
  · rw [collisions_apart]
    constructor
    · intro h
      exact ⟨h.nodup, h.injective, h.filed⟩
    · intro h
      exact ⟨h.1, h.2.1, h.2.2⟩
  · rw [collisions_apart, Filesystem.holds_iff]
  · intro others hperm
    rw [collisions_apart, collisions_apart]
    exact ⟨fun h => h.perm hperm.symm, fun h => h.perm hperm⟩

end QuantForge.Bundle
