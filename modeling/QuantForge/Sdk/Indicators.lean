import QuantForge.Sdk.Strategy
import QuantForge.Framework.Reader
import QuantForge.Model.DecimalRounding
import Mathlib.Data.List.DropRight

namespace QuantForge

/-- How a moving average is not made: with an error, or by a panic of its queue. -/
inductive SmaError
  | strategy (error : StrategyError)
  | capacityOverflow
  deriving DecidableEq

/-- Rolling simple moving average over the last `window` observations. A queue of 16-byte
decimals can be as long as the window. -/
structure Sma where
  window : Nat
  sum : Decimal
  values : List Decimal
  window_pos : 0 < window
  window_lt : 16 * window < 2 ^ 63
  deriving DecidableEq

namespace Sma

def new (window : Nat) : Except SmaError Sma :=
  if hpos : window = 0 then
    .error (.strategy ⟨"SMA window must be greater than zero"⟩)
  else if hlt : 16 * window < 2 ^ 63 then
    .ok ⟨window, .zero, [], Nat.pos_of_ne_zero hpos, hlt⟩
  else .error .capacityOverflow

def reset (s : Sma) : Sma := { s with sum := .zero, values := [] }

theorem window_lt_limit (s : Sma) : s.window < 2 ^ 96 := by
  have := s.window_lt
  omega

variable [DecimalMath]

/-- The queue and its sum, less the oldest value where the queue outgrew the window. -/
def evict (window : Nat) (values : List Decimal) (sum : Decimal) :
    Except Panic (List Decimal × Decimal) :=
  if window < values.length then
    match values with
    | removed :: rest => do
      let sum ← DecimalMath.sub sum removed
      pure (rest, sum)
    | [] => pure (values, sum)
  else pure (values, sum)

def update (s : Sma) (input : Decimal) : Except Panic (Sma × Option Decimal) := do
  let sum ← DecimalMath.add s.sum input
  let (values, sum) ← evict s.window (s.values ++ [input]) sum
  let s' := { s with sum := sum, values := values }
  if values.length = s.window then do
    let mean ← DecimalMath.div sum (.ofNat s.window s.window_lt_limit)
    pure (s', some mean)
  else pure (s', none)

/-- The state after some observations, and what the last one was answered. -/
def feed (s : Sma) (out : Option Decimal) : List Decimal → Except Panic (Sma × Option Decimal)
  | [] => .ok (s, out)
  | input :: rest => do
    let (s', out') ← s.update input
    feed s' out' rest

/-- A moving average that has seen nothing: a new one, or one that was reset. -/
def Started (window : Nat) (s : Sma) : Prop :=
  new window = .ok s ∨ ∃ before : Sma, before.window = window ∧ s = before.reset

omit [DecimalMath] in
theorem Started.empty {window : Nat} {s : Sma} (h : s.Started window) :
    s.window = window ∧ s.sum = .zero ∧ s.values = [] := by
  rcases h with h | ⟨before, hwindow, rfl⟩
  · unfold new at h
    split_ifs at h
    cases h
    exact ⟨rfl, rfl, rfl⟩
  · exact ⟨hwindow, rfl, rfl⟩

end Sma

end QuantForge
