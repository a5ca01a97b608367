import QuantForge.Model.TextParts
import Mathlib.Data.List.TakeWhile

namespace QuantForge.Text

variable {p : Char → Bool} {text core before after : List Char}

theorem trimStart_append (hbefore : ∀ c ∈ before, p c = true) :
    trimStart p (before ++ core) = trimStart p core :=
  List.dropWhile_append_of_pos hbefore

theorem trimStart_of_head (h : ∀ c ∈ core.head?, p c = false) : trimStart p core = core := by
  cases core with
  | nil => rfl
  | cons c cs =>
    have hfirst : p c = false := h c rfl
    rw [trimStart, List.dropWhile_cons_of_neg (by simp [hfirst])]

theorem trimStart_split (p : Char → Bool) (text : List Char) :
    ∃ before, (∀ c ∈ before, p c = true) ∧ text = before ++ trimStart p text := by
  refine ⟨text.takeWhile p, ?_, ?_⟩
  · intro c hc
    exact List.mem_takeWhile_imp hc
  · exact (List.takeWhile_append_dropWhile).symm

theorem trimStart_head : ∀ c ∈ (trimStart p text).head?, p c = false := by
  intro c hc
  have hnot := List.head?_dropWhile_not p text
  rw [trimStart] at hc
  rw [hc] at hnot
  simpa using hnot

/-- What stands between two runs of dropped characters is what is left of a text. -/
theorem trim_append (hbefore : ∀ c ∈ before, p c = true) (hafter : ∀ c ∈ after, p c = true)
    (hfirst : ∀ c ∈ core.head?, p c = false) (hlast : ∀ c ∈ core.getLast?, p c = false)
    (hne : core ≠ []) : trim p (before ++ (core ++ after)) = core := by
  have hhead : ∀ c ∈ (core ++ after).head?, p c = false := by
    rw [List.head?_append_of_ne_nil _ hne]
    exact hfirst
  have hback : ∀ c ∈ core.reverse.head?, p c = false := by
    rw [List.head?_reverse]
    exact hlast
  have hdropped : ∀ c ∈ after.reverse, p c = true := by
    intro c hc
    exact hafter c (List.mem_reverse.mp hc)
  rw [trim, trimStart_append hbefore, trimStart_of_head hhead, List.reverse_append,
    trimStart_append hdropped, trimStart_of_head hback, List.reverse_reverse]

theorem trim_split (p : Char → Bool) (text : List Char) :
    ∃ before after, (∀ c ∈ before, p c = true) ∧ (∀ c ∈ after, p c = true) ∧
      text = before ++ (trim p text ++ after) := by
  obtain ⟨before, hbefore, htext⟩ := trimStart_split p text
  obtain ⟨after, hafter, hback⟩ := trimStart_split p (trimStart p text).reverse
  refine ⟨before, after.reverse, hbefore, ?_, ?_⟩
  · intro c hc
    exact hafter c (List.mem_reverse.mp hc)
  · have hcore : trimStart p text = trim p text ++ after.reverse := by
      rw [trim, ← List.reverse_append, ← hback, List.reverse_reverse]
    rw [← hcore]
    exact htext

theorem trim_last : ∀ c ∈ (trim p text).getLast?, p c = false := by
  rw [trim, List.getLast?_reverse]
  exact trimStart_head

theorem trim_head : ∀ c ∈ (trim p text).head?, p c = false := by
  intro c hc
  obtain ⟨after, _, hback⟩ := trimStart_split p (trimStart p text).reverse
  have hcore : trimStart p text = trim p text ++ after.reverse := by
    rw [trim, ← List.reverse_append, ← hback, List.reverse_reverse]
  have hstart : ∀ c ∈ (trimStart p text).head?, p c = false := trimStart_head
  apply hstart
  rw [hcore, List.head?_append, Option.mem_def.mp hc]
  rfl

/-- What has nothing to drop at its ends stays as it is. -/
theorem trim_of_ends (hfirst : ∀ c ∈ core.head?, p c = false)
    (hlast : ∀ c ∈ core.getLast?, p c = false) : trim p core = core := by
  rw [trim, trimStart_of_head hfirst, trimStart_of_head, List.reverse_reverse]
  rw [List.head?_reverse]
  exact hlast

/-- A trimmed text is empty exactly when every character is dropped. -/
theorem trim_isEmpty : (trim p text).isEmpty = true ↔ ∀ c ∈ text, p c = true := by
  rw [List.isEmpty_iff, trim, List.reverse_eq_nil_iff, trimStart, List.dropWhile_eq_nil_iff]
  constructor
  · intro h c hc
    by_contra hkept
    obtain ⟨before, hbefore, htext⟩ := trimStart_split p text
    rw [htext, List.mem_append] at hc
    rcases hc with hc | hc
    · exact hkept (hbefore c hc)
    · exact hkept (h c (List.mem_reverse.mpr hc))
  · intro h c hc
    have hmem : c ∈ trimStart p text := List.mem_reverse.mp hc
    exact h c ((List.dropWhile_sublist p).subset hmem)

theorem stripPrefix_some {fixed rest : List Char} :
    stripPrefix fixed text = some rest ↔ text = fixed ++ rest := by
  unfold stripPrefix
  constructor
  · intro h
    split_ifs at h with hprefix
    obtain ⟨tail, htail⟩ := List.isPrefixOf_iff_prefix.mp hprefix
    have hrest : tail = rest := by simpa [← htail] using h
    rw [← htail, hrest]
  · intro h
    rw [if_pos (List.isPrefixOf_iff_prefix.mpr ⟨rest, h.symm⟩), h]
    simp

@[simp] theorem stripPrefix_nil (text : List Char) : stripPrefix [] text = some text := by
  rw [stripPrefix_some, List.nil_append]

@[simp] theorem stripPrefix_cons (c d : Char) (fixed text : List Char) :
    stripPrefix (c :: fixed) (d :: text) = if c = d then stripPrefix fixed text else none := by
  by_cases hcd : c = d
  · rw [if_pos hcd, hcd, stripPrefix, stripPrefix]
    simp
  · rw [if_neg hcd, stripPrefix, if_neg]
    simp [hcd]

end QuantForge.Text
