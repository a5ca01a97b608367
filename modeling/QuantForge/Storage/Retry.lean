import Mathlib.Tactic.Common

namespace QuantForge.Retry

/-- The pauses between attempts, in nanoseconds. -/
def firstPause : Nat := 10000000

def longestPause : Nat := 200000000

variable {M E R : Type}

/-- One turn of the loop: what its attempt meets, the clock when the attempt ends, and the clock
when the pause after it does. -/
structure Turn (M : Type) where
  meets : M
  ended : Nat
  woke : Nat

/-- What is left of the budget, where the clock can hold its end. -/
def timeLeft (deadline : Option Nat) (budget now : Nat) : Nat :=
  match deadline with
  | some deadline => deadline - now
  | none => budget

/-- The attempts that a loop made, each with the time that it was given, and its answer once it
has one. -/
structure Tried (M E R : Type) where
  attempts : List (Nat × M)
  answer : Option (Except E R)

section

variable (conflicts : E → Bool) (transaction : Nat → M → Option (Except E R))
  (deadline : Option Nat) (budget : Nat)

/-- `retry_with`, from a turn on: an attempt that answers a conflict is made again while there is
time for the pause, and after it. -/
def retryFrom (left pause : Nat) : List (Turn M) → Tried M E R
  | [] => ⟨[], none⟩
  | turn :: turns =>
    let made := (left, turn.meets)
    match transaction left turn.meets with
    | none => ⟨[made], none⟩
    | some (.ok r) => ⟨[made], some (.ok r)⟩
    | some (.error e) =>
      if conflicts e then
        if timeLeft deadline budget turn.ended ≤ pause then ⟨[made], some (.error e)⟩
        else
          let left := timeLeft deadline budget turn.woke
          if left = 0 then ⟨[made], some (.error e)⟩
          else
            let rest := retryFrom left (min (pause * 2) longestPause) turns
            ⟨made :: rest.attempts, rest.answer⟩
      else ⟨[made], some (.error e)⟩

/-- `retry_conflicts`, over the turns that its loop takes. -/
def retryConflicts (turns : List (Turn M)) : Tried M E R :=
  retryFrom conflicts transaction deadline budget budget firstPause turns

end

variable {conflicts : E → Bool} {transaction : Nat → M → Option (Except E R)}
  {deadline : Option Nat} {budget : Nat}

/-- What a loop has done: every attempt but the last answered a conflict, and the loop's answer is
the last attempt's. -/
inductive LastDecides (conflicts : E → Bool) (transaction : Nat → M → Option (Except E R)) :
    Tried M E R → Prop
  | unstarted : LastDecides conflicts transaction ⟨[], none⟩
  | last {made : Nat × M} {answer : Option (Except E R)}
      (same : ∀ a, answer = some a → transaction made.1 made.2 = some a) :
      LastDecides conflicts transaction ⟨[made], answer⟩
  | again {made : Nat × M} {e : E} {rest : Tried M E R} (lost : conflicts e = true)
      (met : transaction made.1 made.2 = some (.error e))
      (later : LastDecides conflicts transaction rest) :
      LastDecides conflicts transaction ⟨made :: rest.attempts, rest.answer⟩

theorem retryFrom_last (left pause : Nat) (turns : List (Turn M)) :
    LastDecides conflicts transaction
      (retryFrom conflicts transaction deadline budget left pause turns) := by
  induction turns generalizing left pause with
  | nil => exact .unstarted
  | cons turn turns ih =>
    rw [retryFrom]
    cases hmet : transaction left turn.meets with
    | none =>
      apply LastDecides.last
      intro a h
      cases h
    | some answer =>
      have hlast : ∀ a, some answer = some a → transaction left turn.meets = some a := by
        intro a h
        rw [hmet, h]
      cases answer with
      | ok r => exact .last hlast
      | error e =>
        dsimp only
        by_cases hconflict : conflicts e = true
        · rw [if_pos hconflict]
          by_cases hshort : timeLeft deadline budget turn.ended ≤ pause
          · rw [if_pos hshort]
            exact .last hlast
          · rw [if_neg hshort]
            by_cases hnone : timeLeft deadline budget turn.woke = 0
            · rw [if_pos hnone]
              exact .last hlast
            · rw [if_neg hnone]
              exact .again hconflict hmet (ih _ _)
        · rw [if_neg hconflict]
          exact .last hlast

end QuantForge.Retry
