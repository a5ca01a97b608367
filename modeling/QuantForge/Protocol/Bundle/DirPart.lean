import QuantForge.Protocol.Bundle.Collisions
import QuantForge.Protocol.Bundle.DirCheck

namespace QuantForge.Bundle

variable {limits : BundleLimits}

/-- What the per-file checks say against a candidate. -/
def Faults (limits : BundleLimits) (c : Candidate) (problem : BundleProblem) : Prop :=
  BundlePath.new c.path = .error problem ∨
    ∃ path, BundlePath.new c.path = .ok path ∧ limits.fileLimit < c.size ∧
      problem = fileTooLarge limits path c.size

theorem add_faults {t : Tally} {c : Candidate} {problem : BundleProblem} :
    problem ∈ (t.add limits c).problems ↔ problem ∈ t.problems ∨ Faults limits c problem := by
  unfold Tally.add Faults
  cases hpath : BundlePath.new c.path with
  | error found => simp [eq_comm]
  | ok path =>
    simp only [reduceCtorEq, Except.ok.injEq, exists_eq_left', false_or]
    split_ifs with hsize
    · simp [hsize]
    · cases c.contents <;> simp [hsize]

theorem foldl_faults {cs : List Candidate} {t : Tally} {problem : BundleProblem} :
    problem ∈ (cs.foldl (Tally.add limits) t).problems ↔
      problem ∈ t.problems ∨ ∃ c ∈ cs, Faults limits c problem := by
  induction cs generalizing t with
  | nil => simp
  | cons c cs ih =>
    rw [List.foldl_cons, ih, add_faults, or_assoc]
    simp

/-- The path of a candidate, if it passes the path rules. -/
def validPath (c : Candidate) : Option BundlePath := (BundlePath.new c.path).toOption

variable (limits) in
theorem foldl_valid (cs : List Candidate) (t : Tally) :
    (cs.foldl (Tally.add limits) t).valid = t.valid ++ cs.filterMap validPath := by
  induction cs generalizing t with
  | nil => simp
  | cons c cs ih =>
    rw [List.foldl_cons, ih, List.filterMap_cons, validPath]
    unfold Tally.add
    cases BundlePath.new c.path with
    | error found => rfl
    | ok path =>
      have hvalid : t.valid ++ [path] ++ cs.filterMap validPath =
          t.valid ++ path :: cs.filterMap validPath := by simp
      simp only [Except.toOption]
      split_ifs
      · exact hvalid
      · cases c.contents <;> exact hvalid

variable (limits) in
theorem foldl_total (cs : List Candidate) (t : Tally) :
    (cs.foldl (Tally.add limits) t).total = totalFrom t.total cs := by
  induction cs generalizing t with
  | nil => rfl
  | cons c cs ih =>
    have hadd : (t.add limits c).total = saturating (t.total + c.size) := by
      unfold Tally.add
      cases BundlePath.new c.path with
      | error found => rfl
      | ok path =>
        simp only
        split_ifs
        · rfl
        · cases c.contents <;> rfl
    rw [List.foldl_cons, ih, hadd]
    rfl

def sizes (cs : List Candidate) : Nat := (cs.map Candidate.size).sum

theorem totalFrom_sizes (cs : List Candidate) {seen : Nat} (h : seen ≤ u64Max) :
    totalFrom seen cs = saturating (seen + sizes cs) := by
  induction cs generalizing seen with
  | nil =>
    rw [sizes, List.map_nil, List.sum_nil, Nat.add_zero, saturating, Nat.min_eq_left h]
    rfl
  | cons c cs ih =>
    have hrest : totalFrom (saturating (seen + c.size)) cs =
        saturating (saturating (seen + c.size) + sizes cs) := ih (Nat.min_le_right _ _)
    have hfirst : totalFrom seen (c :: cs) = totalFrom (saturating (seen + c.size)) cs := rfl
    rw [hfirst, hrest, sizes, sizes, List.map_cons, List.sum_cons]
    simp only [saturating]
    omega

theorem sizes_le {part all : List Candidate} (h : part.Subperm all) : sizes part ≤ sizes all := by
  obtain ⟨same, hperm, hsublist⟩ := h
  have hsame : sizes same = sizes part := (hperm.map _).sum_nat
  rw [← hsame, sizes, sizes]
  clear hperm hsame
  induction hsublist with
  | slnil => exact le_rfl
  | cons c _ ih =>
    rw [List.map_cons, List.sum_cons]
    exact ih.trans (Nat.le_add_left _ _)
  | cons_cons c _ ih =>
    rw [List.map_cons, List.map_cons, List.sum_cons, List.sum_cons]
    exact Nat.add_le_add_left ih _

/-- The problems of some candidates. -/
theorem mem_problems {candidates : List Candidate} {problem : BundleProblem} :
    problem ∈ (check candidates limits).problems ↔
      (∃ c ∈ candidates, Faults limits c problem) ∨
      problem ∈ collisions ((candidates.insertionSort byPath).filterMap validPath) ∨
      problem ∈ tooManyFiles limits (candidates.insertionSort byPath) ∨
      problem ∈ bundleTooLarge limits (saturating (sizes candidates)) := by
  have hvalid := foldl_valid limits (candidates.insertionSort byPath) {}
  have htotal := foldl_total limits (candidates.insertionSort byPath) {}
  have hzero : totalFrom 0 (candidates.insertionSort byPath) = saturating (sizes candidates) := by
    have hperm := (List.perm_insertionSort byPath candidates).map Candidate.size
    have hsum : sizes (candidates.insertionSort byPath) = sizes candidates := hperm.sum_nat
    rw [totalFrom_sizes _ (Nat.zero_le _), Nat.zero_add, hsum]
  rw [List.nil_append] at hvalid
  simp only [check, List.mem_append, hvalid, htotal, hzero, foldl_faults, List.not_mem_nil,
    false_or, List.mem_insertionSort, or_assoc]

/-- The checks of some of the files report no code that the checks of all of
them do not. -/
theorem part_codes {part all : List Candidate} (h : part.Subperm all) :
    ∀ problem ∈ (check part limits).problems,
      ∃ other ∈ (check all limits).problems, other.code = problem.code := by
  have hsorted : (part.insertionSort byPath).Subperm (all.insertionSort byPath) :=
    (List.perm_insertionSort byPath part).subperm.trans
      (h.trans (List.perm_insertionSort byPath all).symm.subperm)
  intro problem hproblem
  rcases mem_problems.mp hproblem with ⟨c, hc, hfault⟩ | hcollision | hmany | hlarge
  · exact ⟨problem, mem_problems.mpr (.inl ⟨c, h.subset hc, hfault⟩), rfl⟩
  · have hpaths : ((part.insertionSort byPath).filterMap validPath).Subperm
        ((all.insertionSort byPath).filterMap validPath) := by
      obtain ⟨same, hperm, hsublist⟩ := hsorted
      exact ⟨_, hperm.filterMap _, hsublist.filterMap _⟩
    have hsome : collisions ((all.insertionSort byPath).filterMap validPath) ≠ [] := by
      intro hnil
      rw [collisions_subperm hpaths hnil] at hcollision
      cases hcollision
    obtain ⟨other, hother⟩ := List.exists_mem_of_ne_nil _ hsome
    refine ⟨other, mem_problems.mpr (.inr (.inl hother)), ?_⟩
    rw [collisions_code other hother, collisions_code problem hcollision]
  · have hlen := hsorted.length_le
    refine ⟨problem, mem_problems.mpr (.inr (.inr (.inl ?_))), rfl⟩
    unfold tooManyFiles at hmany ⊢
    split_ifs at hmany with hcount
    · rw [if_pos (by omega)]
      exact hmany
    · cases hmany
  · have hle := sizes_le h
    have htotal : saturating (sizes part) ≤ saturating (sizes all) := by
      simp only [saturating]
      omega
    unfold bundleTooLarge at hlarge
    split_ifs at hlarge with hsize
    · have hall : limits.maxTotalBytes.toNat < saturating (sizes all) := by omega
      have hreported : ∃ other ∈ bundleTooLarge limits (saturating (sizes all)),
          other.code = .bundleTooLarge := by
        rw [bundleTooLarge, if_pos hall]
        exact ⟨_, List.mem_singleton.mpr rfl, rfl⟩
      obtain ⟨other, hother, hcode⟩ := hreported
      rw [List.mem_singleton.mp hlarge]
      exact ⟨other, mem_problems.mpr (.inr (.inr (.inr hother))), hcode⟩
    · cases hlarge

/-- Files of which no problem is found were all read: they fit together. -/
theorem sizes_fit {candidates : List Candidate} (h : (check candidates limits).problems = []) :
    totalFrom 0 candidates ≤ limits.maxTotalBytes.toNat := by
  rw [totalFrom_sizes _ (Nat.zero_le _), Nat.zero_add]
  by_contra hover
  have hlarge : ∃ problem, problem ∈ bundleTooLarge limits (saturating (sizes candidates)) := by
    rw [bundleTooLarge, if_pos (by omega)]
    exact ⟨_, List.mem_singleton.mpr rfl⟩
  obtain ⟨problem, hproblem⟩ := hlarge
  have hfound := mem_problems.mpr (.inr (.inr (.inr hproblem)))
  rw [h] at hfound
  cases hfound

end QuantForge.Bundle
