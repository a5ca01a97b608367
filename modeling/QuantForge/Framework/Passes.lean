import QuantForge.Framework.Crowd

namespace QuantForge

/-- Reads of a record one after another, each of what is committed then. -/
inductive Reads (S R : Type)
  | done (r : R)
  | next (read : S → Reads S R)

namespace Reads

variable {S R T : Type}

/-- What the reads give where the record stays as it is. -/
def eval : Reads S R → S → R
  | .done r, _ => r
  | .next read, s => (read s).eval s

/-- How many reads there are where the record stays as it is. -/
def cost : Reads S R → S → Nat
  | .done _, _ => 0
  | .next read, s => (read s).cost s + 1

def map (f : R → T) : Reads S R → Reads S T
  | .done r => .done (f r)
  | .next read => .next fun s => (read s).map f

@[simp] theorem eval_map (f : R → T) (reads : Reads S R) (s : S) :
    (reads.map f).eval s = f (reads.eval s) := by
  induction reads with
  | done r => rfl
  | next read ih => exact ih s

@[simp] theorem cost_map (f : R → T) (reads : Reads S R) (s : S) :
    (reads.map f).cost s = reads.cost s := by
  induction reads with
  | done r => rfl
  | next read ih =>
    simp only [map, cost]
    rw [ih s]

end Reads

/-- A loop of passes over a shared record. Each pass is one transaction under one
lock: it reads what is left to do, does a part of it one statement after
another, and commits; where nothing is left, the loop is done. -/
structure Passes (S V N E : Type) where
  look : Reads S (Except E (Option (List V)))
  work : V → N → S → Except E S
  /-- Whether the transaction begins before it asks for the lock. -/
  locksLate : Bool
  /-- Whether a pass with nothing left to do commits too. -/
  commitsIdle : Bool

namespace Passes

variable {S V N E : Type}

/-- What statements make of a record when they all succeed, one after another. -/
inductive Ran (work : V → N → S → Except E S) : List V → S → S → Prop
  | nil {s : S} : Ran work [] s s
  | snoc {done : List V} {v : V} {hand : N} {s t u : S} (before : Ran work done s t)
      (runs : work v hand t = .ok u) : Ran work (done ++ [v]) s u

namespace Ran

variable {work : V → N → S → Except E S} {s t u : S}

theorem append {first rest : List V} (h : Ran work first s t) (then_ : Ran work rest t u) :
    Ran work (first ++ rest) s u := by
  induction then_ with
  | nil =>
    rw [List.append_nil]
    exact h
  | snoc before runs ih =>
    rw [← List.append_assoc]
    exact (ih h).snoc runs

theorem of_nil (h : Ran work [] s u) : u = s := by
  generalize none : ([] : List V) = l at h
  cases h with
  | nil => rfl
  | snoc before runs => simp at none

theorem of_snoc {done : List V} {v : V} (h : Ran work (done ++ [v]) s u) :
    ∃ hand t, Ran work done s t ∧ work v hand t = .ok u := by
  generalize all : done ++ [v] = l at h
  cases h with
  | nil => simp at all
  | snoc before runs =>
    obtain ⟨same, last⟩ := List.append_inj' all rfl
    cases last
    rw [same]
    exact ⟨_, _, before, runs⟩

theorem of_append {first rest : List V} (h : Ran work (first ++ rest) s u) :
    ∃ t, Ran work first s t ∧ Ran work rest t u := by
  induction rest using List.reverseRecOn generalizing u with
  | nil =>
    rw [List.append_nil] at h
    exact ⟨u, h, .nil⟩
  | append_singleton rest v ih =>
    rw [← List.append_assoc] at h
    obtain ⟨hand, t, before, runs⟩ := h.of_snoc
    obtain ⟨m, one, two⟩ := ih before
    exact ⟨m, one, two.snoc runs⟩

/-- Statements whose part in a record can be told run on that part too. -/
theorem part {S' V' E' : Type} {work' : V' → N → S' → Except E' S'} {item : V' → V} {g : S → S'}
    (shows : ∀ v hand s t, work (item v) hand s = .ok t → work' v hand (g s) = .ok (g t))
    {items : List V'} (h : Ran work (items.map item) s u) : Ran work' items (g s) (g u) := by
  induction items using List.reverseRecOn generalizing u with
  | nil =>
    rw [of_nil h]
    exact .nil
  | append_singleton items v ih =>
    rw [List.map_append, List.map_singleton] at h
    obtain ⟨hand, t, before, runs⟩ := h.of_snoc
    exact (ih before).snoc (shows v hand t u runs)

end Ran

/-- The record as it is committed, and whose transaction holds the lock. -/
structure Shared (S : Type) where
  state : S
  holder : Option Nat

/-- Where a loop is. One that was left behind has answered, but its transaction
is still open. -/
inductive Stage (S V E : Type)
  | idle
  | begun
  | looking (reads : Reads S (Except E (Option (List V))))
  | working (rest : List V) (seen : S)
  | parting
  | stray (error : E)
  | adrift (error : E) (sent : Option S)
  | ended (answer : Except E Unit)

/-- What a loop's surroundings let happen: its next statement runs; its commit
takes place, and is answered or not; it fails or its process dies, and its
transaction is undone; or its caller is gone while the transaction is open. -/
inductive Choice (N E : Type)
  | goes (hand : N)
  | commits (unanswered : Option E)
  | fails (error : E)
  | leaves (error : E)

def Stage.locked : Stage S V E → Bool
  | .looking _ | .working _ _ | .parting | .adrift _ _ => true
  | _ => false

def Stage.hasEnded : Stage S V E → Bool
  | .ended _ => true
  | _ => false

def Shared.free (w : Shared S) : Shared S := { w with holder := none }

def Shared.commit (w : Shared S) (left : S) : Shared S := { w with state := left, holder := none }

variable (L : Passes S V N E)

/-- The lock is granted to one at a time. -/
def lock (who : Nat) (w : Shared S) (stage : Stage S V E) : Option (Shared S × Stage S V E) :=
  match w.holder with
  | none => some ({ w with holder := some who }, stage)
  | some _ => none

def answered (unanswered : Option E) (stage : Stage S V E) : Stage S V E :=
  match unanswered with
  | none => stage
  | some error => .ended (.error error)

def step (who : Nat) (choice : Choice N E) (w : Shared S) (stage : Stage S V E) :
    Option (Shared S × Stage S V E) :=
  match choice, stage with
  | _, .ended _ => none
  | .goes _, .idle => if L.locksLate then some (w, .begun) else lock who w (.looking L.look)
  | .goes _, .begun => lock who w (.looking L.look)
  | .goes _, .stray error => lock who w (.adrift error none)
  | .goes _, .looking (.next read) => some (w, .looking (read w.state))
  | .goes _, .looking (.done (.error error)) => some (w.free, .ended (.error error))
  | .goes _, .looking (.done (.ok none)) =>
    if L.commitsIdle then some (w, .parting) else some (w.free, .ended (.ok ()))
  | .goes _, .looking (.done (.ok (some works))) => some (w, .working works w.state)
  | .goes hand, .working (v :: rest) seen =>
    match L.work v hand seen with
    | .ok next => some (w, .working rest next)
    | .error error => some (w.free, .ended (.error error))
  | .goes _, .adrift error none => some (w.free, .ended (.error error))
  | .commits unanswered, .working [] seen => some (w.commit seen, answered unanswered .idle)
  | .commits unanswered, .parting => some (w.free, answered unanswered (.ended (.ok ())))
  | .commits _, .adrift error (some left) => some (w.commit left, .ended (.error error))
  | .fails error, .idle | .fails error, .begun => some (w, .ended (.error error))
  | .fails error, .looking _ | .fails error, .working _ _ | .fails error, .parting =>
    some (w.free, .ended (.error error))
  | .fails _, .stray error => some (w, .ended (.error error))
  | .fails _, .adrift error _ => some (w.free, .ended (.error error))
  | .leaves error, .begun => some (w, .stray error)
  | .leaves error, .looking _ | .leaves error, .working (_ :: _) _ | .leaves error, .parting =>
    some (w, .adrift error none)
  | .leaves error, .working [] seen => some (w, .adrift error (some seen))
  | _, _ => none

/-- Any number of such loops over one record. -/
def crowd : Crowd (Shared S) (Stage S V E) Unit (Choice N E) where
  enter _ := .idle
  step := L.step

/-- The record with no loop begun. -/
def fresh (s : S) : Crowd.Scene (Shared S) (Stage S V E) := ⟨⟨s, none⟩, []⟩

/-- One whole pass: all that it found to do in `s` leads to `t`. -/
def Advanced (s t : S) : Prop := ∃ works, L.look.eval s = .ok (some works) ∧ Ran L.work works s t

/-- What a loop knows of the record: what it has read, and what its transaction
made of it so far. -/
def Knows (s : S) : Stage S V E → Prop
  | .looking reads => reads.eval s = L.look.eval s
  | .working rest seen =>
    ∃ done, L.look.eval s = .ok (some (done ++ rest)) ∧ Ran L.work done s seen
  | .parting | .ended (.ok _) => L.look.eval s = .ok none
  | .adrift _ (some left) => L.Advanced s left
  | _ => True

/-- A loop with an open transaction has the lock, and what it knows is so. -/
structure Sound (w : Shared S) (who : Nat) (stage : Stage S V E) : Prop where
  holds : stage.locked = true → w.holder = some who
  knows : L.Knows w.state stage

variable {L} {w v : Shared S} {who other : Nat} {choice : Choice N E} {p q : Stage S V E}

theorem lock_some {stage : Stage S V E} (h : lock who w stage = some (v, q)) :
    w.holder = none ∧ v = { w with holder := some who } ∧ q = stage := by
  revert h
  fun_cases lock who w stage with
  | case1 none =>
    intro h
    cases h
    exact ⟨none, rfl, rfl⟩
  | case2 other some =>
    intro h
    cases h

/-- A loop without the lock leaves all as it is, or takes the lock. -/
theorem step_unlocked (unlocked : p.locked = false) (h : L.step who choice w p = some (v, q)) :
    v = w ∨ w.holder = none ∧ v = { w with holder := some who } := by
  revert h
  fun_cases step L who choice w p with
  | case3 | case4 | case5 =>
    intro h
    exact .inr ⟨(lock_some h).1, (lock_some h).2.1⟩
  | _ =>
    intro h
    cases h <;> first | exact .inl rfl | cases unlocked

/-- What a step makes of the record: it stays, or one pass of the lock's holder
is committed whole. -/
theorem step_state (sound : L.Sound w who p) (h : L.step who choice w p = some (v, q)) :
    v.state = w.state ∨ w.holder = some who ∧ L.Advanced w.state v.state := by
  revert h
  fun_cases step L who choice w p with
  | case3 | case4 | case5 =>
    intro h
    rw [(lock_some h).2.1]
    exact .inl rfl
  | case14 unanswered seen =>
    intro h
    cases h
    obtain ⟨done, found, ran⟩ := sound.knows
    rw [List.append_nil] at found
    exact .inr ⟨sound.holds rfl, done, found, ran⟩
  | case16 unanswered error left =>
    intro h
    cases h
    exact .inr ⟨sound.holds rfl, sound.knows⟩
  | _ =>
    intro h
    cases h <;> exact .inl rfl

theorem sound_error (w : Shared S) (who : Nat) (error : E) :
    L.Sound w who (.ended (.error error)) := ⟨fun locked => (nomatch locked), trivial⟩

theorem step_own (sound : L.Sound w who p) (h : L.step who choice w p = some (v, q)) :
    L.Sound v who q := by
  revert h
  fun_cases step L who choice w p with
  | case3 hand late =>
    intro h
    obtain ⟨-, rfl, rfl⟩ := lock_some h
    exact ⟨fun _ => rfl, rfl⟩
  | case4 hand =>
    intro h
    obtain ⟨-, rfl, rfl⟩ := lock_some h
    exact ⟨fun _ => rfl, rfl⟩
  | case5 hand error =>
    intro h
    obtain ⟨-, rfl, rfl⟩ := lock_some h
    exact ⟨fun _ => rfl, trivial⟩
  | case9 hand quiet =>
    intro h
    cases h
    have found : Except.ok none = L.look.eval w.state := sound.knows
    exact ⟨fun locked => (nomatch locked), found.symm⟩
  | case8 hand commits =>
    intro h
    cases h
    have found : Except.ok none = L.look.eval w.state := sound.knows
    exact ⟨fun _ => sound.holds rfl, found.symm⟩
  | case10 hand works =>
    intro h
    cases h
    have found : Except.ok (some works) = L.look.eval w.state := sound.knows
    exact ⟨fun _ => sound.holds rfl, [], found.symm, .nil⟩
  | case11 hand v rest seen next runs =>
    intro h
    cases h
    obtain ⟨done, found, ran⟩ := sound.knows
    refine ⟨fun _ => sound.holds rfl, done ++ [v], ?_, ran.snoc runs⟩
    rw [found, List.append_assoc, List.singleton_append]
  | case14 unanswered seen =>
    intro h
    cases h
    cases unanswered with
    | none => exact ⟨fun locked => (nomatch locked), trivial⟩
    | some error => exact sound_error _ who error
  | case15 unanswered =>
    intro h
    cases h
    cases unanswered with
    | none => exact ⟨fun locked => (nomatch locked), sound.knows⟩
    | some error => exact sound_error _ who error
  | case28 error seen =>
    intro h
    cases h
    obtain ⟨done, found, ran⟩ := sound.knows
    rw [List.append_nil] at found
    exact ⟨fun _ => sound.holds rfl, done, found, ran⟩
  | case6 hand read =>
    intro h
    cases h
    exact ⟨fun _ => sound.holds rfl, sound.knows⟩
  | case2 | case24 =>
    intro h
    cases h
    exact ⟨fun locked => (nomatch locked), trivial⟩
  | case25 | case26 | case27 =>
    intro h
    cases h
    exact ⟨fun _ => sound.holds rfl, trivial⟩
  | _ =>
    intro h
    cases h <;> exact sound_error _ who _

/-- A pass leaves what it found to do only where there is something to do. -/
theorem sound_others (sound : L.Sound w who p) (h : L.step who choice w p = some (v, q))
    (apart : other ≠ who) {r : Stage S V E} (theirs : L.Sound w other r) : L.Sound v other r := by
  by_cases locked : r.locked = true
  · have held := theirs.holds locked
    have unlocked : p.locked = false := by
      by_contra mine
      have also := sound.holds (by simpa using mine)
      rw [held] at also
      exact apart (Option.some.inj also)
    obtain same | ⟨free, -⟩ := step_unlocked unlocked h
    · rw [same]
      exact theirs
    · rw [held] at free
      cases free
  · refine ⟨fun h => absurd h locked, ?_⟩
    have knows := theirs.knows
    obtain same | ⟨-, works, found, -⟩ := step_state sound h
    · rw [same]
      exact knows
    · cases r with
      | ended answer =>
        cases answer with
        | error error => trivial
        | ok u =>
          have done : L.look.eval w.state = .ok none := knows
          rw [found] at done
          cases done
      | idle | begun | stray => trivial
      | _ => exact absurd rfl locked

/-- What each loop knows it keeps, and no other takes it away. -/
theorem crowd_keeps : L.crowd.Keeps (fun _ => True) L.Sound fun _ _ _ _ => True where
  enters _ _ _ := ⟨fun locked => (nomatch locked), trivial⟩
  own _ sound _ h := ⟨trivial, step_own sound h⟩
  others _ sound _ h apart theirs := sound_others sound h apart theirs

theorem fresh_holds (s : S) : Crowd.Holds (fun _ => True) L.Sound (fresh s : Crowd.Scene _ (Stage S V E)) :=
  ⟨trivial, fun h => by simp [fresh] at h⟩

variable (L)

/-- Whoever the lock is granted to is there and has its transaction open. -/
def Owned (s : Crowd.Scene (Shared S) (Stage S V E)) : Prop :=
  ∀ who, s.world.holder = some who → ∃ p, s.members[who]? = some p ∧ p.locked = true

/-- What a loop waits for to go on. -/
def Stage.onward (hand : N) : Stage S V E → Choice N E
  | .working [] _ | .parting | .adrift _ (some _) => .commits none
  | _ => .goes hand

variable {L}

theorem step_holder (h : L.step who choice w p = some (v, q)) :
    v.holder = none ∨ v.holder = some who ∧ q.locked = true ∨
      v.holder = w.holder ∧ (p.locked = true → q.locked = true) := by
  revert h
  fun_cases step L who choice w p with
  | case3 | case4 | case5 =>
    intro h
    obtain ⟨-, rfl, rfl⟩ := lock_some h
    exact .inr (.inl ⟨rfl, rfl⟩)
  | _ =>
    intro h
    cases h <;> first | exact .inl rfl | exact .inr (.inr ⟨rfl, fun _ => rfl⟩) | exact .inr (.inr ⟨rfl, id⟩)

theorem fresh_owned (s : S) : Owned (fresh s : Crowd.Scene _ (Stage S V E)) :=
  fun who h => by simp [fresh] at h

theorem owned_next {s : Crowd.Scene (Shared S) (Stage S V E)} (hs : Owned s)
    (op : Crowd.Op Unit (Choice N E)) : Owned (L.crowd.machine.next s op) := by
  cases op with
  | enters a =>
    intro who held
    obtain ⟨p, hp, locked⟩ := hs who held
    have inside : who < s.members.length := (List.getElem?_eq_some_iff.mp hp).1
    have before : (s.members ++ [L.crowd.enter a])[who]? = some p := by
      rw [List.getElem?_append_left inside, hp]
    exact ⟨p, before, locked⟩
  | acts actor choice =>
    obtain ⟨stays, -⟩ | ⟨p, v, q, hactor, hstep, next⟩ := Crowd.acts_cases L.crowd s actor choice
    · rw [stays]
      exact hs
    · rw [next]
      have inside : actor < s.members.length := (List.getElem?_eq_some_iff.mp hactor).1
      have mine : (s.members.set actor q)[actor]? = some q := List.getElem?_set_self inside
      intro who held
      obtain free | ⟨taken, locked⟩ | ⟨same, keeps⟩ := step_holder hstep
      · rw [free] at held
        cases held
      · rw [taken] at held
        cases held
        exact ⟨q, mine, locked⟩
      · rw [same] at held
        obtain ⟨r, hr, locked⟩ := hs who held
        by_cases self : actor = who
        · subst self
          rw [hactor] at hr
          cases hr
          exact ⟨q, mine, keeps locked⟩
        · exact ⟨r, by rw [List.getElem?_set_ne self, hr], locked⟩

theorem onward_steps (hand : N) (ready : w.holder = none ∨ p.locked = true)
    (going : p.hasEnded = false) : (L.step who (p.onward hand) w p).isSome = true := by
  have granted (unlocked : p.locked = false) (stage : Stage S V E) :
      (lock who w stage).isSome = true := by
    obtain free | locked := ready
    · simp [lock, free]
    · rw [unlocked] at locked
      cases locked
  cases p with
  | idle =>
    show (L.step who (.goes hand) w .idle).isSome = true
    rw [step]
    split
    · rfl
    · exact granted rfl _
  | begun => exact granted rfl _
  | stray error => exact granted rfl _
  | looking reads =>
    cases reads with
    | next read => rfl
    | done found =>
      rcases found with error | none | works
      · rfl
      · show (L.step who (.goes hand) w (.looking (.done (.ok none)))).isSome = true
        rw [step]
        split <;> rfl
      · rfl
  | working rest seen =>
    cases rest with
    | nil => rfl
    | cons v rest =>
      show (L.step who (.goes hand) w (.working (v :: rest) seen)).isSome = true
      rw [step]
      split <;> rfl
  | parting => rfl
  | adrift error sent => cases sent <;> rfl
  | ended answer => cases going

/-- While any loop has not ended, one of them can go on. -/
theorem some_onward (hand : N) {s : Crowd.Scene (Shared S) (Stage S V E)} (owned : Owned s)
    {who : Nat} {p : Stage S V E} (hwho : s.members[who]? = some p) (going : p.hasEnded = false) :
    ∃ actor r, s.members[actor]? = some r ∧
      (L.step actor (r.onward hand) s.world r).isSome = true := by
  cases held : s.world.holder with
  | none => exact ⟨who, p, hwho, onward_steps hand (.inl held) going⟩
  | some actor =>
    obtain ⟨r, hr, locked⟩ := owned actor held
    have running : r.hasEnded = false := by
      cases r with
      | ended answer => cases locked
      | _ => rfl
    exact ⟨actor, r, hr, onward_steps hand (.inr locked) running⟩

variable (L)

/-- Passes whose every commit brings the record nearer to where nothing is left. -/
structure Measured (rank : S → Nat) (most reads works : Nat) : Prop where
  most : ∀ s, rank s ≤ most
  reads : ∀ s, L.look.cost s ≤ reads
  works : ∀ s ws, L.look.eval s = .ok (some ws) → ws.length ≤ works
  advances : ∀ s t, L.Advanced s t → rank t < rank s

/-- How far a loop still is from the end of its pass. -/
def phase (reads works : Nat) (s : S) : Stage S V E → Nat
  | .idle => reads + works + 5
  | .begun => reads + works + 4
  | .looking r => r.cost s + works + 3
  | .working rest _ => rest.length + 2
  | .parting | .stray _ => 2
  | .adrift _ _ => 1
  | .ended _ => 0

def left (rank : S → Nat) (reads works : Nat) (w : Shared S) (p : Stage S V E) : Nat :=
  rank w.state * (reads + works + 6) + phase reads works w.state p

variable {L} {rank : S → Nat} {most reads works : Nat}

/-- A commit outweighs the pass that it lets the loop begin. -/
theorem commit_spends (m : L.Measured rank most reads works) {s t : S} (done : L.Advanced s t) :
    rank t * (reads + works + 6) + (reads + works + 6) ≤ rank s * (reads + works + 6) := by
  have fewer := m.advances s t done
  rw [← Nat.succ_mul]
  exact Nat.mul_le_mul_right (reads + works + 6) fewer

theorem own_spends (m : L.Measured rank most reads works) (sound : L.Sound w who p)
    (h : L.step who choice w p = some (v, q)) :
    left rank reads works v q < left rank reads works w p := by
  revert h
  fun_cases step L who choice w p with
  | case3 | case4 =>
    intro h
    obtain ⟨-, rfl, rfl⟩ := lock_some h
    have cost := m.reads w.state
    simp only [left, phase]
    omega
  | case5 =>
    intro h
    obtain ⟨-, rfl, rfl⟩ := lock_some h
    simp only [left, phase]
    omega
  | case10 hand ws =>
    intro h
    cases h
    have found : Except.ok (some ws) = L.look.eval w.state := sound.knows
    have few := m.works w.state ws found.symm
    simp only [left, phase]
    omega
  | case14 unanswered seen =>
    intro h
    cases h
    obtain ⟨done, found, ran⟩ := sound.knows
    rw [List.append_nil] at found
    have spends := commit_spends m ⟨done, found, ran⟩
    cases unanswered <;> simp only [left, phase, Shared.commit, answered, List.length_nil] <;> omega
  | case16 unanswered error after =>
    intro h
    cases h
    have spends := commit_spends m sound.knows
    simp only [left, phase, Shared.commit]
    omega
  | case15 unanswered =>
    intro h
    cases h
    cases unanswered <;> simp only [left, phase, Shared.free, answered] <;> omega
  | _ =>
    intro h
    cases h <;> simp only [left, phase, Shared.free, Reads.cost, List.length_cons] <;> omega

theorem others_spend_nothing (m : L.Measured rank most reads works) (sound : L.Sound w who p)
    (h : L.step who choice w p = some (v, q)) (apart : other ≠ who) {r : Stage S V E}
    (theirs : L.Sound w other r) : left rank reads works v r ≤ left rank reads works w r := by
  obtain same | ⟨held, done⟩ := step_state sound h
  · apply Nat.le_of_eq
    rw [left, left, same]
  · have spends := commit_spends m done
    cases r with
    | looking reads =>
      have also := theirs.holds rfl
      rw [held] at also
      exact absurd (Option.some.inj also).symm apart
    | _ =>
      simp only [left, phase]
      omega

/-- Every loop ends after so many steps of its own, however the others' fall. -/
theorem turns_le (m : L.Measured rank most reads works) (who : Nat) (s : S)
    (ops : List (Crowd.Op Unit (Choice N E))) :
    L.crowd.turns who (fresh s) ops ≤ most * (reads + works + 6) + (reads + works + 5) :=
  Crowd.turns_le (μ := left rank reads works) crowd_keeps
    (fun w _ _ => Nat.add_le_add_right (Nat.mul_le_mul_right _ (m.most w.state)) _)
    (fun _ sound _ h => own_spends m sound h)
    (fun _ sound _ h apart theirs => others_spend_nothing m sound h apart theirs) who
    (fresh_holds s) Crowd.takes_any

theorem run_holds (s : S) (ops : List (Crowd.Op Unit (Choice N E))) :
    Crowd.Holds (fun _ => True) L.Sound (L.crowd.machine.run (fresh s) ops) :=
  Crowd.keeps_run crowd_keeps (fresh_holds s) Crowd.takes_any

theorem run_owned (s : S) (ops : List (Crowd.Op Unit (Choice N E))) :
    Owned (L.crowd.machine.run (fresh s) ops) :=
  L.crowd.machine.run_keeps Owned (fresh_owned s) (fun _ op owned => owned_next owned op) ops

/-- Whatever the loops do and meet, one step of one of them leaves the record
as it was or one whole pass further. -/
theorem next_advances (s : S) (ops : List (Crowd.Op Unit (Choice N E)))
    (op : Crowd.Op Unit (Choice N E)) :
    Relation.ReflGen L.Advanced (L.crowd.machine.run (fresh s) ops).world.state
      (L.crowd.machine.run (fresh s) (ops ++ [op])).world.state := by
  rw [Machine.run_snoc]
  have taken : Crowd.Takes (fun _ _ _ _ => True) (L.crowd.machine.run (fresh s) ops) op := by
    cases op with
    | enters a => trivial
    | acts who choice => exact fun _ _ => trivial
  refine Crowd.next_relates (K := L.crowd) (R := fun w v => Relation.ReflGen L.Advanced w.state v.state)
    (fun _ => .refl) (fun {who choice w v p q} _ sound _ h => ?_) (run_holds s ops) taken
  obtain same | ⟨-, done⟩ := step_state sound h
  · rw [same]
  · exact .single done

/-- A run of such loops is one whole pass after another. -/
theorem run_advances (s : S) (ops : List (Crowd.Op Unit (Choice N E))) :
    Relation.ReflTransGen L.Advanced s (L.crowd.machine.run (fresh s) ops).world.state := by
  induction ops using List.reverseRecOn with
  | nil => exact .refl
  | append_singleton past op ih => exact ih.trans (next_advances s past op).to_reflTransGen

/-- A loop that ended well leaves nothing to do. -/
theorem ended_done (s : S) (ops : List (Crowd.Op Unit (Choice N E))) {who : Nat}
    (ended : (L.crowd.machine.run (fresh s) ops).members[who]? = some (.ended (.ok ()))) :
    L.look.eval (L.crowd.machine.run (fresh s) ops).world.state = .ok none :=
  ((run_holds s ops).members ended).knows

/-- A record that the loops find nothing to do in, or refuse, stays as it is. -/
theorem nothing_stays {s : S} (nothing : ∀ works, L.look.eval s ≠ .ok (some works))
    (ops : List (Crowd.Op Unit (Choice N E))) :
    (L.crowd.machine.run (fresh s) ops).world.state = s := by
  obtain same | ⟨t, ⟨works, found, -⟩, -⟩ := (run_advances (L := L) s ops).cases_head
  · exact same.symm
  · exact absurd found (nothing works)

end Passes

end QuantForge
