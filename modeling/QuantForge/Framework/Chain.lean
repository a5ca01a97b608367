import Mathlib.Algebra.BigOperators.Group.List.Basic
import Mathlib.Tactic.Abel
import Mathlib.Data.List.Basic
import Mathlib.Tactic.Common

namespace QuantForge

/-- Links laid end to end on a line of steps: from where one link ends, with
the value it leaves, the line is idle until the next begins. The chain ends
at the given step and value. -/
inductive Chain {L α : Type} (idle : Nat → Nat → α → Prop) (link : L → Nat → Nat → α → α → Prop)
    (start : α) : Nat → α → List L → Prop
  | nil : Chain idle link start 0 start []
  | snoc {ends first next : Nat} {v w : α} {links : List L} {l : L}
      (before : Chain idle link start ends v links) (later : ends ≤ first)
      (waits : idle ends first v) (joins : link l first next v w) :
      Chain idle link start next w (links ++ [l])

namespace Chain

variable {L α : Type} {idle : Nat → Nat → α → Prop} {link : L → Nat → Nat → α → α → Prop}
  {start : α} {ends : Nat} {v : α} {links : List L}

/-- Where every link reports what it changes, the reports add up. -/
theorem sum_gains [AddCommGroup α] (gain : L → α)
    (reports : ∀ l first next v w, link l first next v w → gain l = w - v)
    (h : Chain idle link start ends v links) : v = start + (links.map gain).sum := by
  induction h with
  | nil => simp
  | snoc before later waits joins ih =>
    rw [List.map_append, List.sum_append, ← add_assoc, ← ih, List.map_singleton, List.sum_singleton,
      reports _ _ _ _ _ joins]
    abel

end Chain

variable {α : Type} {P : List α → α → Prop}

/-- Every entry of a history is one that may follow those before it. -/
def Unfolds (P : List α → α → Prop) (history : List α) : Prop :=
  ∀ before entry after, history = before ++ entry :: after → P before entry

theorem unfolds_nil : Unfolds P [] := by
  intro before entry after h
  simp at h

/-- An entry of a history with one more is the last, or one of those before it. -/
theorem snoc_split {history before after : List α} {entry last : α}
    (h : history ++ [last] = before ++ entry :: after) :
    (after = [] ∧ history = before ∧ last = entry) ∨
      ∃ rest, after = rest ++ [last] ∧ history = before ++ entry :: rest := by
  rcases List.eq_nil_or_concat after with rfl | ⟨rest, other, rfl⟩
  · obtain ⟨rfl, hlast⟩ := List.append_inj' h rfl
    rw [List.cons.injEq] at hlast
    exact .inl ⟨rfl, rfl, hlast.1⟩
  · have split : history ++ [last] = (before ++ entry :: rest) ++ [other] := by rw [h]; simp
    obtain ⟨hhistory, hother⟩ := List.append_inj' split rfl
    rw [List.cons.injEq] at hother
    exact .inr ⟨rest, by rw [hother.1, List.concat_eq_append], hhistory⟩

theorem unfolds_snoc {history : List α} {entry : α} (h : Unfolds P history)
    (follows : P history entry) : Unfolds P (history ++ [entry]) := by
  intro before e after heq
  rcases snoc_split heq with ⟨-, rfl, rfl⟩ | ⟨rest, -, hhistory⟩
  · exact follows
  · exact h before e rest hhistory

end QuantForge
