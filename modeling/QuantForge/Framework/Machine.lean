import Mathlib.Data.List.Induction
import Mathlib.Tactic.Common

namespace QuantForge

/-- A record with operations: each one answers, and leaves a next state
whether it was accepted or refused. -/
structure Machine (State Op Error : Type) where
  step : State → Op → Except Error Unit × State

namespace Machine

variable {State Op Error : Type} (M : Machine State Op Error)

def next (s : State) (op : Op) : State := (M.step s op).2

def Accepts (s : State) (op : Op) : Prop := (M.step s op).1 = .ok ()

instance (s : State) (op : Op) : Decidable (M.Accepts s op) :=
  match h : (M.step s op).1 with
  | .ok () => .isTrue h
  | .error e => .isFalse (by simp [Accepts, h])

/-- The state after a sequence of operations, accepted or refused. -/
def run (s : State) : List Op → State
  | [] => s
  | op :: ops => run (M.next s op) ops

/-- Every step of the run, seen from the state before it, satisfies `P`. -/
def Every (P : State → Op → Prop) (s : State) : List Op → Prop
  | [] => True
  | op :: ops => P s op ∧ Every P (M.next s op) ops

/-- Some step of the run, seen from the state before it, satisfies `P`. -/
def Occurs (P : State → Op → Prop) (s : State) : List Op → Prop
  | [] => False
  | op :: ops => P s op ∨ Occurs P (M.next s op) ops

/-- What the latest step that yields anything yields. -/
def latest {α : Type} (f : State → Op → Option α) (s : State) : List Op → Option α
  | [] => none
  | op :: ops => (latest f (M.next s op) ops).or (f s op)

/-- What the steps of a run yield, in their order. -/
def yields {α : Type} (f : State → Op → Option α) (s : State) : List Op → List α
  | [] => []
  | op :: ops => (f s op).toList ++ yields f (M.next s op) ops

@[simp] theorem run_nil (s : State) : M.run s [] = s := rfl

@[simp] theorem run_cons (s : State) (op : Op) (ops : List Op) :
    M.run s (op :: ops) = M.run (M.next s op) ops := rfl

theorem run_append (s : State) (front back : List Op) :
    M.run s (front ++ back) = M.run (M.run s front) back := by
  induction front generalizing s with
  | nil => rfl
  | cons op front ih => exact ih (M.next s op)

theorem run_snoc (s : State) (ops : List Op) (op : Op) :
    M.run s (ops ++ [op]) = M.next (M.run s ops) op := by
  rw [run_append]
  rfl

theorem every_append (P : State → Op → Prop) (s : State) (front back : List Op) :
    M.Every P s (front ++ back) ↔ M.Every P s front ∧ M.Every P (M.run s front) back := by
  induction front generalizing s with
  | nil => simp [Every]
  | cons op front ih =>
    simp only [List.cons_append, Every, run_cons, ih (M.next s op)]
    tauto

theorem every_snoc (P : State → Op → Prop) (s : State) (ops : List Op) (op : Op) :
    M.Every P s (ops ++ [op]) ↔ M.Every P s ops ∧ P (M.run s ops) op := by
  rw [every_append]
  simp [Every]

theorem occurs_snoc (P : State → Op → Prop) (s : State) (ops : List Op) (op : Op) :
    M.Occurs P s (ops ++ [op]) ↔ M.Occurs P s ops ∨ P (M.run s ops) op := by
  induction ops generalizing s with
  | nil => simp [Occurs]
  | cons first ops ih =>
    simp only [List.cons_append, Occurs, run_cons, ih (M.next s first)]
    tauto

theorem latest_snoc {α : Type} (f : State → Op → Option α) (s : State) (ops : List Op) (op : Op) :
    M.latest f s (ops ++ [op]) = (f (M.run s ops) op).or (M.latest f s ops) := by
  induction ops generalizing s with
  | nil => simp [latest]
  | cons first ops ih =>
    simp only [List.cons_append, latest, run_cons, ih (M.next s first), Option.or_assoc]

theorem yields_snoc {α : Type} (f : State → Op → Option α) (s : State) (ops : List Op) (op : Op) :
    M.yields f s (ops ++ [op]) = M.yields f s ops ++ (f (M.run s ops) op).toList := by
  induction ops generalizing s with
  | nil => simp [yields]
  | cons first ops ih =>
    simp only [List.cons_append, yields, run_cons, ih (M.next s first), List.append_assoc]

theorem every_congr {P Q : State → Op → Prop} (h : ∀ s op, P s op ↔ Q s op) (s : State)
    (ops : List Op) : M.Every P s ops ↔ M.Every Q s ops := by
  induction ops generalizing s with
  | nil => rfl
  | cons op ops ih => exact and_congr (h s op) (ih (M.next s op))

theorem every_prefix (P : State → Op → Prop) {s : State} {front ops : List Op}
    (hp : front <+: ops) (he : M.Every P s ops) : M.Every P s front := by
  obtain ⟨back, rfl⟩ := hp
  exact ((M.every_append P s front back).mp he).1

/-- Every step meets what holds of all that happens in the run. -/
theorem every_occurs {α : Type} (Q : α → State → Op → Prop) (R : α → Prop) {s : State}
    {ops : List Op} (h : ∀ a, M.Occurs (Q a) s ops → R a) :
    M.Every (fun t op => ∀ a, Q a t op → R a) s ops := by
  induction ops generalizing s with
  | nil => trivial
  | cons op ops ih => exact ⟨fun a ha => h a (.inl ha), ih fun a ha => h a (.inr ha)⟩

/-- What the first state has and every step keeps, the last state has. -/
theorem run_keeps (Inv : State → Prop) {s : State} (hs : Inv s)
    (hstep : ∀ t op, Inv t → Inv (M.next t op)) (ops : List Op) : Inv (M.run s ops) := by
  induction ops generalizing s with
  | nil => exact hs
  | cons op ops ih => exact ih (hstep s op hs)

/-- The same for an invariant that also reads the operations so far, over
runs whose every step is allowed. -/
theorem run_history (Inv : List Op → State → Prop) {s : State} {P : State → Op → Prop}
    (hs : Inv [] s)
    (hstep : ∀ past op, Inv past (M.run s past) → P (M.run s past) op →
      Inv (past ++ [op]) (M.next (M.run s past) op))
    (ops : List Op) (he : M.Every P s ops) : Inv ops (M.run s ops) := by
  induction ops using List.reverseRecOn with
  | nil => exact hs
  | append_singleton past op ih =>
    obtain ⟨hpast, hop⟩ := (M.every_snoc P s past op).mp he
    rw [run_snoc]
    exact hstep past op (ih hpast) hop

theorem history_keeps (Inv : List Op → State → Prop) {s : State} (hs : Inv [] s)
    (hstep : ∀ past op, Inv past (M.run s past) →
      Inv (past ++ [op]) (M.next (M.run s past) op))
    (ops : List Op) : Inv ops (M.run s ops) := by
  induction ops using List.reverseRecOn with
  | nil => exact hs
  | append_singleton past op ih =>
    rw [run_snoc]
    exact hstep past op ih

/-- A property of every state of a run holds exactly when every step meets a
condition, once the condition carries the property forward and the property
at the next state forces it back. -/
theorem every_prefix_iff (Inv : List Op → State → Prop) (P : State → Op → Prop) {s : State}
    (hs : Inv [] s)
    (hstep : ∀ past op, Inv past (M.run s past) →
      (Inv (past ++ [op]) (M.next (M.run s past) op) ↔ P (M.run s past) op))
    (ops : List Op) :
    (∀ past, past <+: ops → Inv past (M.run s past)) ↔ M.Every P s ops := by
  constructor
  · intro h
    induction ops using List.reverseRecOn with
    | nil => trivial
    | append_singleton past op ih =>
      have hpast := h past (List.prefix_append past [op])
      have hnext := h (past ++ [op]) (List.prefix_refl _)
      rw [run_snoc] at hnext
      rw [every_snoc]
      exact ⟨ih fun front hf => h front (hf.trans (List.prefix_append past [op])),
        (hstep past op hpast).mp hnext⟩
  · intro he past hp
    exact M.run_history Inv hs (fun front op hi hop => (hstep front op hi).mpr hop) past
      (M.every_prefix P hp he)

end Machine

end QuantForge
