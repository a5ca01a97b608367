import Mathlib.Data.List.Basic
import Mathlib.Tactic.Common

namespace QuantForge.Folds

variable {α β ε : Type} {step : β → α → Except ε β}

theorem toOption_bind {γ : Type} (x : Except ε α) (f : α → Except ε γ) :
    (x >>= f).toOption = x.toOption.bind fun a => (f a).toOption := by
  cases x with
  | error e => rfl
  | ok a => rfl

/-- A fallible fold whose steps may be exchanged two by two ends alike over every order of
its list: it fails over both or comes to one result. -/
theorem foldlM_perm {P : β → List α → Prop}
    (reorders : ∀ {b l l'}, l.Perm l' → P b l → P b l')
    (keeps : ∀ {b a l c}, P b (a :: l) → step b a = .ok c → P c l)
    (swaps : ∀ {b a a' l}, P b (a :: a' :: l) →
      (step b a >>= fun c => step c a').toOption = (step b a' >>= fun c => step c a).toOption)
    {l l' : List α} (h : l.Perm l') {b : β} (hP : P b l) :
    (l.foldlM step b).toOption = (l'.foldlM step b).toOption := by
  induction h generalizing b with
  | nil => rfl
  | cons a _ ih =>
    rw [List.foldlM_cons, List.foldlM_cons, toOption_bind, toOption_bind]
    cases hstep : step b a with
    | error e => rfl
    | ok c => exact ih (keeps hP hstep)
  | swap a a' l =>
    have exchanged := swaps hP
    simp only [List.foldlM_cons]
    rw [← bind_assoc, ← bind_assoc, toOption_bind (step b a' >>= fun c => step c a),
      toOption_bind (step b a >>= fun c => step c a'), exchanged]
  | trans first _ ih ih' => exact (ih hP).trans (ih' (reorders first hP))

/-- A step that fails on every state fails the fold. -/
theorem foldlM_fails {a : α} {l : List α} (ha : a ∈ l) (fails : ∀ b, (step b a).toOption = none)
    (b : β) : (l.foldlM step b).toOption = none := by
  induction l generalizing b with
  | nil => cases ha
  | cons x l ih =>
    rw [List.foldlM_cons, toOption_bind]
    rcases List.mem_cons.mp ha with rfl | ha
    · rw [fails b]
      rfl
    · cases hstep : step b x with
      | error e => rfl
      | ok c => exact ih ha c

/-- A fold ends with the step of its last element. -/
theorem foldlM_last {a : α} {l : List α} {b c : β}
    (h : ((l ++ [a]).foldlM step b).toOption = some c) : ∃ mid, step mid a = .ok c := by
  rw [List.foldlM_append, toOption_bind] at h
  cases hmid : l.foldlM step b with
  | error e =>
    rw [hmid] at h
    cases h
  | ok mid =>
    rw [hmid] at h
    refine ⟨mid, ?_⟩
    have hlast : (step mid a >>= pure).toOption = some c := h
    rw [bind_pure] at hlast
    cases hstep : step mid a with
    | error e =>
      rw [hstep] at hlast
      cases hlast
    | ok d =>
      rw [hstep] at hlast
      cases hlast
      rfl

/-- What every step keeps, the fold keeps. -/
theorem foldlM_keeps {P : β → Prop} (keeps : ∀ {b a c}, P b → step b a = .ok c → P c)
    {l : List α} {b c : β} (hb : P b) (h : l.foldlM step b = .ok c) : P c := by
  induction l generalizing b with
  | nil =>
    cases h
    exact hb
  | cons a l ih =>
    rw [List.foldlM_cons] at h
    cases hstep : step b a with
    | error e =>
      rw [hstep] at h
      cases h
    | ok next =>
      rw [hstep] at h
      exact ih (keeps hb hstep) h

/-- Two members of a list that differ may stand before all others. -/
theorem perm_two {a b : α} {l : List α} (ha : a ∈ l) (hb : b ∈ l) (h : b ≠ a) :
    ∃ others, l.Perm (a :: b :: others) := by
  obtain ⟨before, after, rfl⟩ := List.append_of_mem ha
  have hmem : b ∈ before ++ after := by
    have hb' := List.perm_middle.mem_iff.mp hb
    exact (List.mem_cons.mp hb').resolve_left h
  obtain ⟨first, last, hsplit⟩ := List.append_of_mem hmem
  refine ⟨first ++ last, List.perm_middle.trans (List.Perm.cons a ?_)⟩
  rw [hsplit]
  exact List.perm_middle

end QuantForge.Folds
