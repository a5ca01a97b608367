import Mathlib.Tactic.Common

namespace QuantForge

/-- A program over a world: it answers or fails, and leaves a world either
way. -/
def Prog (W E α : Type) : Type := W → Except E α × W

namespace Prog

variable {W E α β : Type}

def answer (a : α) : Prog W E α := fun w => (.ok a, w)

def andThen (x : Prog W E α) (f : α → Prog W E β) : Prog W E β := fun w =>
  match x w with
  | (.ok a, v) => f a v
  | (.error e, v) => (.error e, v)

instance : Monad (Prog W E) where
  pure := answer
  bind := andThen

/-- What a call answered, in a world it left as it was. -/
def ofExcept (answered : Except E α) : Prog W E α := fun w => (answered, w)

/-- A program that sees no difference between worlds related by `R`, and
leaves them related. -/
def Respects (R : W → W → Prop) (x : Prog W E α) : Prop :=
  ∀ v w, R v w → (x v).1 = (x w).1 ∧ R (x v).2 (x w).2

/-- From a world with `P`, the program answers only where `Q` holds of its
answer and the world it leaves. -/
def Leads (P : W → Prop) (x : Prog W E α) (Q : α → W → Prop) : Prop :=
  ∀ w, P w → ∀ a v, x w = (.ok a, v) → Q a v

/-- `P` of a world holds also of the world the program leaves, whether it
answers or fails. -/
def Keeps (P : W → Prop) (x : Prog W E α) : Prop := ∀ w, P w → P (x w).2

/-- A property of programs that answers have and sequences keep. -/
structure Compositional (C : {α : Type} → Prog W E α → Prop) : Prop where
  answer : ∀ {α : Type} (a : α), C (pure a : Prog W E α)
  andThen : ∀ {α β : Type} {x : Prog W E α} {f : α → Prog W E β},
    C x → (∀ a, C (f a)) → C (x >>= f)

@[simp] theorem pure_run (a : α) (w : W) : (pure a : Prog W E α) w = (.ok a, w) := rfl

theorem seq_ok {x : Prog W E α} {f : α → Prog W E β} {w v : W} {a : α}
    (h : x w = (.ok a, v)) : (x >>= f) w = f a v := by
  show andThen x f w = f a v
  rw [andThen, h]

theorem seq_error {x : Prog W E α} {f : α → Prog W E β} {w v : W} {e : E}
    (h : x w = (.error e, v)) : (x >>= f) w = (.error e, v) := by
  show andThen x f w = (.error e, v)
  rw [andThen, h]

/-- How a sequence ends: its first part fails, or its second part goes on
from where the first ended. -/
theorem bind_cases (x : Prog W E α) (f : α → Prog W E β) (w : W) :
    (∃ e v, x w = (.error e, v) ∧ (x >>= f) w = (.error e, v)) ∨
      ∃ a v, x w = (.ok a, v) ∧ (x >>= f) w = f a v := by
  rcases hx : x w with ⟨outcome, v⟩
  cases outcome with
  | error e => exact .inl ⟨e, v, rfl, seq_error hx⟩
  | ok a => exact .inr ⟨a, v, rfl, seq_ok hx⟩

/-- Computing on the answer leaves the world alone. -/
theorem map_run (x : Prog W E α) (g : α → β) (w : W) :
    (x >>= fun a => pure (g a)) w = ((x w).1.map g, (x w).2) := by
  rcases bind_cases x (fun a => pure (g a)) w with ⟨e, v, hv, hrun⟩ | ⟨a, v, hv, hrun⟩
  · rw [hrun, hv]
    rfl
  · rw [hrun, hv]
    rfl

theorem bind_answers {x : Prog W E α} {f : α → Prog W E β} {w v : W} {b : β}
    (h : (x >>= f) w = (.ok b, v)) : ∃ a u, x w = (.ok a, u) ∧ f a u = (.ok b, v) := by
  rcases bind_cases x f w with ⟨e, u, -, hstop⟩ | ⟨a, u, ha, hgo⟩
  · rw [hstop] at h
    cases h
  · exact ⟨a, u, ha, hgo ▸ h⟩

section

variable {P : W → Prop} {Q : α → W → Prop} {R : β → W → Prop}

theorem leads_pure {a : α} (h : ∀ w, P w → Q a w) : Leads P (pure a : Prog W E α) Q := by
  intro w hP b v hrun
  rw [pure_run, Prod.mk.injEq, Except.ok.injEq] at hrun
  rw [← hrun.1, ← hrun.2]
  exact h w hP

theorem leads_bind {x : Prog W E α} {f : α → Prog W E β} (hx : Leads P x Q)
    (hf : ∀ a, Leads (Q a) (f a) R) : Leads P (x >>= f) R := by
  intro w hP b v hrun
  obtain ⟨a, u, ha, hb⟩ := bind_answers hrun
  exact hf a u (hx w hP a u ha) b v hb

theorem leads_of_keeps {x : Prog W E α} (h : Keeps P x) : Leads P x fun _ => P := by
  intro w hP a v hrun
  have kept := h w hP
  rwa [hrun] at kept

theorem leads_weaken {x : Prog W E α} {P' : W → Prop} {Q' : α → W → Prop} (h : Leads P x Q)
    (hP : ∀ w, P' w → P w) (hQ : ∀ a w, Q a w → Q' a w) : Leads P' x Q' :=
  fun w hw a v hrun => hQ a v (h w (hP w hw) a v hrun)

end

theorem respects_compositional (R : W → W → Prop) :
    Compositional fun {α : Type} (x : Prog W E α) => Respects R x where
  answer _ := fun _ _ h => ⟨rfl, h⟩
  andThen := by
    intro α β x f hx hf v w hR
    obtain ⟨same, next⟩ := hx v w hR
    rcases bind_cases x f v with ⟨e, v', hv, hrun⟩ | ⟨a, v', hv, hrun⟩
    · have hw : x w = (.error e, (x w).2) := by rw [← Prod.eta (x w), ← same, hv]
      rw [hrun, seq_error hw]
      rw [hv] at next
      exact ⟨rfl, next⟩
    · have hw : x w = (.ok a, (x w).2) := by rw [← Prod.eta (x w), ← same, hv]
      rw [hrun, seq_ok hw]
      rw [hv] at next
      exact hf a v' (x w).2 next

theorem keeps_compositional (P : W → Prop) :
    Compositional fun {α : Type} (x : Prog W E α) => Keeps P x where
  answer _ := fun _ h => h
  andThen := by
    intro α β x f hx hf w hP
    have next := hx w hP
    rcases bind_cases x f w with ⟨e, v, hv, hrun⟩ | ⟨a, v, hv, hrun⟩
    · rw [hv] at next
      rw [hrun]
      exact next
    · rw [hv] at next
      rw [hrun]
      exact hf a v next

theorem respects_and {R : W → W → Prop} {P : W → Prop} {x : Prog W E α} (hR : Respects R x)
    (hP : ∀ v w, R v w → P v → P (x v).2) : Respects (fun v w => R v w ∧ P v) x := by
  intro v w h
  obtain ⟨same, next⟩ := hR v w h.1
  exact ⟨same, next, hP v w h.1 h.2⟩

end Prog

end QuantForge
