import Mathlib.Data.List.Basic
import Mathlib.Tactic.Common

namespace QuantForge

/-- A Rust slice `xs[a..b]`: `none` is its panic on a range outside `xs`. -/
def slice {α : Type} (xs : List α) (a b : Nat) : Option (List α) :=
  if a ≤ b ∧ b ≤ xs.length then some ((xs.drop a).take (b - a)) else none

/-- A Rust slice `xs[a..]`. -/
def sliceFrom {α : Type} (xs : List α) (a : Nat) : Option (List α) :=
  if a ≤ xs.length then some (xs.drop a) else none

theorem slice_some {α : Type} {xs : List α} {a b : Nat} (hab : a ≤ b) (hb : b ≤ xs.length) :
    slice xs a b = some ((xs.drop a).take (b - a)) := if_pos ⟨hab, hb⟩

theorem sliceFrom_some {α : Type} {xs : List α} {a : Nat} (ha : a ≤ xs.length) :
    sliceFrom xs a = some (xs.drop a) := if_pos ha

end QuantForge

namespace QuantForge.Split

variable {α : Type}

theorem intercalate_cons (x : α) (l : List α) {ls : List (List α)} (h : ls ≠ []) :
    [x].intercalate (l :: ls) = l ++ x :: [x].intercalate ls := by
  cases ls with
  | nil => exact absurd rfl h
  | cons m ms => simp [List.intercalate]

theorem mem_intercalate {x c : α} {ls : List (List α)} (h : c ∈ [x].intercalate ls) :
    c = x ∨ ∃ l ∈ ls, c ∈ l := by
  induction ls with
  | nil => simp [List.intercalate] at h
  | cons l ls ih =>
    by_cases hls : ls = []
    · subst hls
      exact .inr ⟨l, by simp, by simpa [List.intercalate] using h⟩
    · rw [intercalate_cons x l hls, List.mem_append, List.mem_cons] at h
      rcases h with h | h | h
      · exact .inr ⟨l, by simp, h⟩
      · exact .inl h
      · rcases ih h with hx | ⟨m, hm, hc⟩
        · exact .inl hx
        · exact .inr ⟨m, by simp [hm], hc⟩

theorem mem_intercalate_of_mem {x c : α} {l : List α} {ls : List (List α)} (hl : l ∈ ls)
    (hc : c ∈ l) : c ∈ [x].intercalate ls := by
  induction ls with
  | nil => cases hl
  | cons m ms ih =>
    by_cases hms : ms = []
    · subst hms
      rw [List.mem_singleton.mp hl] at hc
      simpa [List.intercalate] using hc
    · rw [intercalate_cons x m hms, List.mem_append, List.mem_cons]
      rcases List.mem_cons.mp hl with rfl | hl
      · exact .inl hc
      · exact .inr (.inr (ih hl))

/-- What a list holds, its pieces hold, except for the separators. -/
theorem mem_splitOn [DecidableEq α] {x c : α} {xs : List α} (h : c ∈ xs) :
    c = x ∨ ∃ l ∈ xs.splitOn x, c ∈ l := by
  have hback : [x].intercalate (xs.splitOn x) = xs := List.intercalate_splitOn x
  rw [← hback] at h
  exact mem_intercalate h

theorem intercalate_concat (x : α) (l : List α) {ls : List (List α)} (h : ls ≠ []) :
    [x].intercalate (ls ++ [l]) = [x].intercalate ls ++ x :: l := by
  induction ls with
  | nil => exact absurd rfl h
  | cons m ms ih =>
    by_cases hms : ms = []
    · subst hms
      simp [List.intercalate]
    · rw [List.cons_append, intercalate_cons x m (by simp), ih hms, intercalate_cons x m hms,
        List.append_assoc, List.cons_append]

/-- A list split at one separator and joined by another. -/
theorem join_splitOn [DecidableEq α] (x y : α) (xs : List α) :
    [y].intercalate (xs.splitOn x) = xs.map fun a => if a = x then y else a := by
  induction xs with
  | nil => simp [List.intercalate]
  | cons a xs ih =>
    rw [List.splitOn_cons_eq_if_modifyHead]
    by_cases ha : a = x
    · rw [if_pos (by simpa using ha), intercalate_cons y [] (List.splitOn_ne_nil x xs), ih,
        List.map_cons, if_pos ha, List.nil_append]
    · rw [if_neg (by simpa using ha), List.map_cons, if_neg ha, ← ih]
      cases hsplit : xs.splitOn x with
      | nil => exact absurd hsplit (List.splitOn_ne_nil x xs)
      | cons l ls => cases ls <;> simp [List.intercalate]

end QuantForge.Split
