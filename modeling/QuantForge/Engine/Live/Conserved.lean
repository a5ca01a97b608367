import QuantForge.Engine.Live.Booked
import QuantForge.Engine.Live.Once

namespace QuantForge.Live

open Prog

section

variable {S σ : Type} [DecimalMath] {rules : SymbolRules} {position : PositionState}
  {log : List Event} (outside : Outside) (cfg : LiveTradeConfig σ)

theorem booked_moved {state : BotRunState} {b : Book} (h : Booked rules position log b)
    (same : state.position = b.state.position) : Booked rules position log { b with state } := by
  obtain ⟨events, accounts, held⟩ := h
  exact ⟨events, ⟨accounts.log, accounts.allowed, accounts.runs, accounts.recorded⟩,
    held.held.trans same.symm, held.unheld⟩

/-- A last save keeps the books right, whether it takes effect or not. -/
theorem booked_lastSave (nonneg : 0 ≤ position.qty.value) :
    Spec (Booked rules position log) (Part.saveRunState outside : Part S Unit)
      (fun _ => Booked rules position log) fun _ => Booked rules position log :=
  spec_saveRunState outside (fun _ _ h => h) (fun _ _ h hsave => h.save nonneg hsave true)
    fun _ _ _ effect h hsave => h.save nonneg hsave effect

theorem booked_stopRun (nonneg : 0 ≤ position.qty.value) :
    Spec (Booked rules position log) (stopRun outside : Part S LiveTradeSummary)
      (fun _ => Booked rules position log) fun _ => Booked rules position log := by
  refine spec_runState fun state => spec_now outside fun updatedAtMs => ?_
  refine spec_bind (Q := fun _ => Booked rules position log)
    (spec_setState fun b h => booked_moved h.1 (by rw [h.2])) fun _ => ?_
  refine spec_bind (booked_lastSave outside nonneg) fun _ => ?_
  refine spec_bind (Q := fun _ => Booked rules position log) (spec_modifySummary fun _ h => h)
    fun _ => ?_
  exact spec_quiet (fun _ => rfl) fun _ _ h => h

theorem booked_failRun (nonneg : 0 ≤ position.qty.value) (error : EngineError) :
    Spec (Booked rules position log) (failRun outside error : Part S LiveTradeSummary)
      (fun _ => Booked rules position log) fun _ => Booked rules position log := by
  refine spec_runState fun state => spec_now outside fun updatedAtMs => ?_
  refine spec_bind (Q := fun _ => Booked rules position log)
    (spec_setState fun b h => booked_moved h.1 (by rw [h.2])) fun _ => ?_
  refine spec_bind (booked_lastSave outside nonneg) fun _ => ?_
  exact spec_quiet (refuse_quiet error) fun _ _ h => h

/-- A run ends with its books right, unless it panicked. -/
theorem booked_ending (nonneg : 0 ≤ position.qty.value) {inner : Part S Unit}
    (h : Spec (Booked rules position log) inner (fun _ => Booked rules position log)
      (Stopped rules position log)) :
    Spec (Booked rules position log) (ending outside inner) (fun _ => Booked rules position log)
      (Stopped rules position log) := by
  have fails (halt : Halt) (b : Book) (h : Booked rules position log b) :
      Stopped rules position log halt b := h.stopped halt
  intro w booked
  obtain ⟨answers, stops⟩ := h w booked
  unfold ending
  rcases hinner : inner w with ⟨outcome, v⟩
  cases outcome with
  | ok _ =>
    exact meets_weaken (booked_stopRun outside nonneg) (fun _ h => h) (fun _ _ h => h)
      (fun halt w h => fails halt w.toBook h) v (answers () v hinner)
  | error halt =>
    have stopped := stops halt v hinner
    cases halt with
    | failed error =>
      exact meets_weaken (booked_failRun outside nonneg error) (fun _ h => h) (fun _ _ h => h)
        (fun halt w h => fails halt w.toBook h) v stopped
    | panicked panic =>
      constructor
      · intro a u hrun
        cases hrun
      · intro e u hrun
        cases hrun
        exact stopped

/-- What a session's events add up to, whenever it is looked at: no position is
negative, and nothing held, closed or written off comes from nowhere or gets
lost, but for the rounding of differences. -/
structure Conserved (rules : SymbolRules) (position : PositionState) (events : List Event) :
    Prop where
  allowed : Unfolds (Allowed rules position) events
  nonneg (front : List Event) : front <+: events →
    0 ≤ (Ledger.after rules position front).held.qty.value
  balanced (front : List Event) : front <+: events →
    (Ledger.after rules position front).Balanced position
  rounded : (∀ {a b c : Decimal}, DecimalMath.checkedSub a b = some c →
    c.value = a.value - b.value) → ∀ front, (Ledger.after rules position front).rounded = 0

theorem conserved_of_allowed {events : List Event} (nonneg : 0 ≤ position.qty.value)
    (h : Unfolds (Allowed rules position) events) : Conserved rules position events where
  allowed := h
  nonneg front _ := Ledger.after_nonneg nonneg front
  balanced front prefixes := by
    obtain ⟨back, rfl⟩ := prefixes
    refine Ledger.after_balanced nonneg fun before entry rest heq => ?_
    exact h before entry (rest ++ back) (by rw [heq]; simp)
  rounded exact_ front := Ledger.after_rounded exact_ front

section Loading

variable {runs : RunTable}

omit [DecimalMath] in
theorem created_nonneg {next : RunTable} {state : BotRunState} {identity : RunIdentity}
    (h : NonnegRuns runs) (position : 0 ≤ state.position.qty.value)
    (created : runs.createRun state identity = .ok next) : NonnegRuns next := by
  obtain ⟨-, rfl⟩ := RunTable.createRun_ok created
  intro id found hfound
  by_cases same : id = state.runId
  · rw [same, Function.update_self, Option.some.injEq] at hfound
    rw [← hfound]
    exact position
  · rw [Function.update_of_ne same] at hfound
    exact h id found hfound

/-- Nothing happened yet. -/
def Idle (log : List Event) (b : Book) : Prop := NonnegRuns b.runs ∧ b.log = log

omit [DecimalMath] in
theorem idle_create (runId : String) :
    Spec (Idle log) (create outside cfg runId : Part S BotRunState)
      (fun state b => Idle log b ∧ 0 ≤ state.position.qty.value) fun _ => Idle log := by
  refine spec_now outside fun nowMs => ?_
  have flat : 0 ≤ (newRun cfg runId nowMs).position.qty.value := le_of_eq Decimal.zero_value.symm
  refine spec_bind (Q := fun _ => Idle log) ?_ fun _ => spec_pure fun b h => ⟨h, flat⟩
  intro w idle
  unfold Part.createRun Part.writeRuns
  cases hcreate : w.runs.createRun (newRun cfg runId nowMs) cfg.identity with
  | error error =>
    constructor
    · intro a v hrun
      cases hrun
    · intro e v hrun
      cases hrun
      exact idle
  | ok next =>
    have recorded : NonnegRuns next := created_nonneg idle.1 flat hcreate
    cases outside.write w.calls with
    | done =>
      constructor
      · intro a v hrun
        cases hrun
        exact ⟨recorded, idle.2⟩
      · intro e v hrun
        cases hrun
    | failed error effect =>
      constructor
      · intro a v hrun
        cases hrun
      · intro e v hrun
        cases hrun
        cases effect with
        | false => exact idle
        | true => exact ⟨recorded, idle.2⟩

omit [DecimalMath] in
theorem idle_loadOrCreate :
    Spec (Idle log) (loadOrCreateRunState outside cfg : Part S BotRunState)
      (fun state b => Idle log b ∧ 0 ≤ state.position.qty.value) fun _ => Idle log := by
  have fails (e : Halt) (b : Book) (h : Idle log b) : Idle log b := h
  refine spec_after (ofExcept_quiet _) fails fun _ => ?_
  cases cfg.runId with
  | none => exact spec_after (newUuid_quiet outside) fails fun id => idle_create outside cfg _
  | some runId =>
    have reads : Spec (Idle log) (Part.readRun outside runId : Part S (Option RunRow))
        (fun found b => Idle log b ∧ ∀ row, found = some row → 0 ≤ row.state.position.qty.value)
        fun _ => Idle log := by
      intro w idle
      unfold Part.readRun
      cases outside.read w.calls with
      | some error =>
        constructor
        · intro a v hrun
          cases hrun
        · intro e v hrun
          cases hrun
          exact idle
      | none =>
        constructor
        · intro a v hrun
          cases hrun
          exact ⟨idle, fun row hrow => idle.1 runId row hrow⟩
        · intro e v hrun
          cases hrun
    refine spec_bind reads fun found => ?_
    cases found with
    | none => exact spec_weaken (idle_create outside cfg runId) (fun _ h => h.1) fun _ _ h => h
    | some row =>
      by_cases nonneg : 0 ≤ row.state.position.qty.value
      · refine spec_weaken (P := Idle log) ?_ (fun _ h => h.1) fun _ _ h => h
        refine spec_after (ofExcept_quiet _) fails fun _ => ?_
        refine spec_after (readRun_quiet outside runId) fails fun again => ?_
        cases again with
        | none => exact meets_ofExcept (fun _ _ h => by cases h) fun _ _ _ h => h
        | some other =>
          refine spec_after (ofExcept_quiet _) fails fun _ => ?_
          exact spec_pure fun b h => ⟨h, nonneg⟩
      · intro w h
        exact absurd (h.2 row rfl) nonneg

end Loading

variable [CandleStore S]

end

attribute [local instance] Segments.exactTextParser DecimalMath.exact_

end QuantForge.Live
