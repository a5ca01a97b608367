import Mathlib.Data.Finset.Max
import Mathlib.Logic.Relation
import QuantForge.Framework.Machine

namespace QuantForge

/-- Participants that share a world, each with a state of its own: how one of
them enters, and what it does under a choice of its surroundings, where it can. -/
structure Crowd (W P A C : Type) where
  enter : A → P
  step : Nat → C → W → P → Option (W × P)

namespace Crowd

variable {W P A C : Type}

/-- What the participants share, and the state of each, in the order they entered. -/
structure Scene (W P : Type) where
  world : W
  members : List P

inductive Op (A C : Type)
  | enters (a : A)
  | acts (who : Nat) (choice : C)
  deriving DecidableEq

variable (K : Crowd W P A C)

/-- Any number of participants, one step at a time and in any order. -/
def machine : Machine (Scene W P) (Op A C) Unit where
  step s
    | .enters a => (.ok (), { s with members := s.members ++ [K.enter a] })
    | .acts who choice =>
      match s.members[who]? with
      | none => (.error (), s)
      | some p =>
        match K.step who choice s.world p with
        | none => (.error (), s)
        | some (world, p) => (.ok (), ⟨world, s.members.set who p⟩)

/-- The shared world has `I`, and each participant has `J` in it. -/
structure Holds (I : W → Prop) (J : W → Nat → P → Prop) (s : Scene W P) : Prop where
  world : I s.world
  members {who : Nat} {p : P} : s.members[who]? = some p → J s.world who p

/-- A step that a participant takes. -/
def Takes (Q : Nat → C → W → P → Prop) (s : Scene W P) : Op A C → Prop
  | .enters _ => True
  | .acts who choice => ∀ p, s.members[who]? = some p → Q who choice s.world p

/-- What each participant keeps of its own by its steps, and no other's step
disturbs. -/
structure Keeps (I : W → Prop) (J : W → Nat → P → Prop) (Q : Nat → C → W → P → Prop) : Prop where
  enters {w : W} (who : Nat) (a : A) : I w → J w who (K.enter a)
  own {who : Nat} {choice : C} {w v : W} {p q : P} : I w → J w who p → Q who choice w p →
    K.step who choice w p = some (v, q) → I v ∧ J v who q
  others {who other : Nat} {choice : C} {w v : W} {p q r : P} : I w → J w who p →
    Q who choice w p → K.step who choice w p = some (v, q) → other ≠ who → J w other r →
    J v other r

variable {K} {I : W → Prop} {J : W → Nat → P → Prop} {Q : Nat → C → W → P → Prop}

/-- What a participant's turn does: nothing where it cannot step, and else its
own step alone. -/
theorem acts_cases (K : Crowd W P A C) (s : Scene W P) (who : Nat) (choice : C) :
    (K.machine.next s (.acts who choice) = s ∧
        (s.members[who]?.bind fun p => K.step who choice s.world p) = none) ∨
      ∃ p v q, s.members[who]? = some p ∧ K.step who choice s.world p = some (v, q) ∧
        K.machine.next s (.acts who choice) = ⟨v, s.members.set who q⟩ := by
  cases hwho : s.members[who]? with
  | none => exact .inl ⟨by simp only [Machine.next, machine, hwho], rfl⟩
  | some p =>
    cases hstep : K.step who choice s.world p with
    | none => exact .inl ⟨by simp only [Machine.next, machine, hwho, hstep], hstep⟩
    | some left =>
      exact .inr ⟨p, left.1, left.2, rfl, hstep, by simp only [Machine.next, machine, hwho, hstep]⟩

theorem keeps_next (h : K.Keeps I J Q) {s : Scene W P} {op : Op A C} (hs : Holds I J s)
    (taken : Takes Q s op) : Holds I J (K.machine.next s op) := by
  cases op with
  | enters a =>
    refine ⟨hs.world, fun {who p} hp => ?_⟩
    have entered : (s.members ++ [K.enter a])[who]? = some p := hp
    by_cases old : who < s.members.length
    · rw [List.getElem?_append_left old] at entered
      exact hs.members entered
    · rw [List.getElem?_append_right (by omega), List.getElem?_singleton] at entered
      split_ifs at entered with last
      rw [← Option.some.inj entered]
      exact h.enters who a hs.world
  | acts who choice =>
    obtain ⟨stays, -⟩ | ⟨p, v, q, hwho, hstep, next⟩ := acts_cases K s who choice
    · rw [stays]
      exact hs
    · rw [next]
      have mine := hs.members hwho
      have kept := h.own hs.world mine (taken p hwho) hstep
      refine ⟨kept.1, fun {other r} hr => ?_⟩
      rw [List.getElem?_set] at hr
      split_ifs at hr with same inside
      · rw [← Option.some.inj hr, ← same]
        exact kept.2
      · exact h.others hs.world mine (taken p hwho) hstep (Ne.symm same) (hs.members hr)

/-- What every participant keeps, every run keeps. -/
theorem keeps_run (h : K.Keeps I J Q) {s : Scene W P} (hs : Holds I J s) {ops : List (Op A C)}
    (taken : K.machine.Every (Takes Q) s ops) : Holds I J (K.machine.run s ops) := by
  induction ops generalizing s with
  | nil => exact hs
  | cons op ops ih => exact ih (keeps_next h hs taken.1) taken.2

/-- Steps of which nothing is asked. -/
theorem takes_any {s : Scene W P} {ops : List (Op A C)} :
    K.machine.Every (Takes fun _ _ _ _ => True) s ops := by
  induction ops generalizing s with
  | nil => trivial
  | cons op ops ih =>
    refine ⟨?_, ih⟩
    cases op with
    | enters a => trivial
    | acts who choice => exact fun _ _ => trivial

/-- What one step in such a scene makes of the shared world, where each
participant's step makes `R` of it. -/
theorem next_relates {R : W → W → Prop} (same : ∀ w, R w w)
    (moves : ∀ {who choice w v p q}, I w → J w who p → Q who choice w p →
      K.step who choice w p = some (v, q) → R w v)
    {s : Scene W P} {op : Op A C} (hs : Holds I J s) (taken : Takes Q s op) :
    R s.world (K.machine.next s op).world := by
  cases op with
  | enters a => exact same s.world
  | acts who choice =>
    obtain ⟨stays, -⟩ | ⟨p, v, q, hwho, hstep, next⟩ := acts_cases K s who choice
    · rw [stays]
      exact same s.world
    · rw [next]
      exact moves hs.world (hs.members hwho) (taken p hwho) hstep

/-- What one step makes of the shared world, a run makes of it over and over. -/
theorem run_relates {R : W → W → Prop} (same : ∀ w, R w w)
    (moves : ∀ {who choice w v p q}, I w → J w who p → Q who choice w p →
      K.step who choice w p = some (v, q) → R w v)
    (h : K.Keeps I J Q) {s : Scene W P} (hs : Holds I J s) {ops : List (Op A C)}
    (taken : K.machine.Every (Takes Q) s ops) :
    Relation.ReflTransGen R s.world (K.machine.run s ops).world := by
  induction ops generalizing s with
  | nil => exact .refl
  | cons op ops ih =>
    have first := next_relates same moves hs taken.1
    exact .head first (ih (keeps_next h hs taken.1) taken.2)

variable (K)

/-- Whether a participant takes this step. -/
def takesTurn (who : Nat) (s : Scene W P) : Op A C → Bool
  | .enters _ => false
  | .acts other choice =>
    other == who && (s.members[other]?.bind fun p => K.step other choice s.world p).isSome

/-- How many steps a participant takes in a run. -/
def turns (who : Nat) (s : Scene W P) : List (Op A C) → Nat
  | [] => 0
  | op :: ops => (K.takesTurn who s op).toNat + turns who (K.machine.next s op) ops

/-- What is left of a participant's budget, the whole of it until it enters. -/
def budget (μ : W → P → Nat) (most who : Nat) (s : Scene W P) : Nat :=
  match s.members[who]? with
  | none => most
  | some p => μ s.world p

variable {K}

theorem budget_next {μ : W → P → Nat} {most : Nat} (enters : ∀ w a, I w → μ w (K.enter a) ≤ most)
    (own : ∀ {who choice w v p q}, I w → J w who p → Q who choice w p →
      K.step who choice w p = some (v, q) → μ v q < μ w p)
    (others : ∀ {who other choice w v p q r}, I w → J w who p → Q who choice w p →
      K.step who choice w p = some (v, q) → other ≠ who → J w other r → μ v r ≤ μ w r)
    {who : Nat} {s : Scene W P} {op : Op A C} (hs : Holds I J s) (taken : Takes Q s op) :
    (K.takesTurn who s op).toNat + budget μ most who (K.machine.next s op) ≤
      budget μ most who s := by
  cases op with
  | enters a =>
    have left : K.machine.next s (.enters a) = ⟨s.world, s.members ++ [K.enter a]⟩ := rfl
    rw [left, takesTurn, Bool.toNat_false, Nat.zero_add]
    by_cases old : who < s.members.length
    · simp only [budget, List.getElem?_append_left old, Nat.le_refl]
    · simp only [budget, List.getElem?_append_right (Nat.not_lt.mp old),
        List.getElem?_eq_none (Nat.not_lt.mp old), List.getElem?_singleton]
      by_cases last : who - s.members.length = 0
      · rw [if_pos last]
        exact enters s.world a hs.world
      · apply Nat.le_of_eq
        rw [if_neg last]
  | acts actor choice =>
    obtain ⟨stays, idle⟩ | ⟨p, v, q, hactor, hstep, left⟩ := acts_cases K s actor choice
    · apply Nat.le_of_eq
      rw [stays, takesTurn, idle, Option.isSome_none, Bool.and_false, Bool.toNat_false,
        Nat.zero_add]
    · rw [left]
      have mine := hs.members hactor
      by_cases same : actor = who
      · subst same
        have inside : actor < s.members.length := (List.getElem?_eq_some_iff.mp hactor).1
        have spends := own hs.world mine (taken p hactor) hstep
        have acts : K.takesTurn actor s (.acts actor choice) = true := by
          simp [takesTurn, hactor, hstep]
        simp only [acts, budget, List.getElem?_set_self inside, hactor, Bool.toNat_true]
        omega
      · have idle : K.takesTurn who s (.acts actor choice) = false := by
          simp [takesTurn, same]
        simp only [idle, budget, List.getElem?_set_ne same, Bool.toNat_false, Nat.zero_add]
        cases hwho : s.members[who]? with
        | none => exact Nat.le_refl most
        | some r =>
          exact others hs.world mine (taken p hactor) hstep (Ne.symm same) (hs.members hwho)

/-- A budget that a participant's own steps spend, and no other's step adds to,
bounds its steps in every run. -/
theorem turns_le {μ : W → P → Nat} {most : Nat} (h : K.Keeps I J Q)
    (enters : ∀ w a, I w → μ w (K.enter a) ≤ most)
    (own : ∀ {who choice w v p q}, I w → J w who p → Q who choice w p →
      K.step who choice w p = some (v, q) → μ v q < μ w p)
    (others : ∀ {who other choice w v p q r}, I w → J w who p → Q who choice w p →
      K.step who choice w p = some (v, q) → other ≠ who → J w other r → μ v r ≤ μ w r)
    (who : Nat) {s : Scene W P} (hs : Holds I J s) {ops : List (Op A C)}
    (taken : K.machine.Every (Takes Q) s ops) : K.turns who s ops ≤ budget μ most who s := by
  induction ops generalizing s with
  | nil => exact Nat.zero_le _
  | cons op ops ih =>
    have first : (K.takesTurn who s op).toNat + budget μ most who (K.machine.next s op) ≤
        budget μ most who s := budget_next enters own others hs taken.1
    have rest := ih (keeps_next h hs taken.1) taken.2
    rw [turns]
    omega

end Crowd

/-- What participants hold, each lock beside the one that holds it. -/
abbrev Locks (Lock : Type) := List (Nat × Lock)

namespace Locks

variable {Lock : Type}

/-- Whether nobody but `who` holds a lock. -/
def free [DecidableEq Lock] (locks : Locks Lock) (who : Nat) (lock : Lock) : Bool :=
  locks.all fun held => held.2 ≠ lock || held.1 = who

/-- Gives back all that `who` holds. -/
def release (locks : Locks Lock) (who : Nat) : Locks Lock := locks.filter fun held => held.1 ≠ who

/-- Nothing is held by two. -/
def Sole (locks : Locks Lock) : Prop :=
  ∀ ⦃a b : Nat⦄ ⦃lock : Lock⦄, (a, lock) ∈ locks → (b, lock) ∈ locks → a = b

variable {locks : Locks Lock} {who other : Nat} {lock : Lock}

theorem free_iff [DecidableEq Lock] :
    locks.free who lock = true ↔ ∀ other, (other, lock) ∈ locks → other = who := by
  simp only [free, List.all_eq_true, Bool.or_eq_true, decide_eq_true_eq]
  constructor
  · intro h other hother
    exact (h (other, lock) hother).resolve_left fun hne => hne rfl
  · intro h held hheld
    by_cases same : held.2 = lock
    · rw [← same] at h
      exact .inr (h held.1 hheld)
    · exact .inl same

theorem mem_release : (other, lock) ∈ locks.release who ↔ (other, lock) ∈ locks ∧ other ≠ who := by
  simp [release]

theorem Sole.take [DecidableEq Lock] (h : locks.Sole) (hfree : locks.free who lock = true) :
    Sole ((who, lock) :: locks) := by
  rw [free_iff] at hfree
  intro a b l ha hb
  rcases List.mem_cons.mp ha with first | ha <;> rcases List.mem_cons.mp hb with second | hb
  · rw [(Prod.mk.inj first).1, (Prod.mk.inj second).1]
  · rw [(Prod.mk.inj first).2] at hb
    rw [(Prod.mk.inj first).1, hfree b hb]
  · rw [(Prod.mk.inj second).2] at ha
    rw [(Prod.mk.inj second).1, hfree a ha]
  · exact h ha hb

theorem Sole.release (h : locks.Sole) (who : Nat) : (locks.release who).Sole := by
  intro a b l ha hb
  exact h (mem_release.mp ha).1 (mem_release.mp hb).1

/-- Participants that take their locks in the order of their ranks do not all wait
for one another. -/
theorem none_waits (locks : Locks Lock) {R : Type} [LinearOrder R] {waiting : Finset Nat}
    (rank : Lock → R) (wants : Nat → Lock)
    (ascending : ∀ who ∈ waiting, ∀ held, (who, held) ∈ locks → rank held < rank (wants who))
    (blocked : ∀ who ∈ waiting, ∃ other ∈ waiting, (other, wants who) ∈ locks) : waiting = ∅ := by
  by_contra hsome
  have hnonempty := Finset.nonempty_iff_ne_empty.mpr hsome
  obtain ⟨last, hlast, hmost⟩ :=
    Finset.exists_max_image waiting (fun who => rank (wants who)) hnonempty
  obtain ⟨other, hother, held⟩ := blocked last hlast
  have habove := ascending other hother (wants last) held
  exact absurd (hmost other hother) (not_le.mpr habove)

end Locks

end QuantForge
