import QuantForge.Engine.Live.Book

namespace QuantForge.Live

open Prog

variable {S σ : Type} [DecimalMath]

/-- What a book keeps along a run, and what is left of it where a part of the run
does not answer. -/
structure Kept (S : Type) (outside : Outside) (cfg : LiveTradeConfig σ) (rules : SymbolRules)
    (I : Book → Prop) (R : Halt → Book → Prop) : Prop where
  ends {b : Book} {halt : Halt} : I b → R halt b
  feeds {b : Book} {bar : Candle} : I b → I (b.record (.fed bar))
  moves {b : Book} {state : BotRunState} : I b → state.runId = b.state.runId →
    state.position = b.state.position → I { b with state }
  saves {b : Book} {runs : RunTable} {effect : Bool} : I b →
    b.runs.saveRunState b.state = .ok runs → I (b.save runs effect)
  acts (target : TargetPosition) (bar : Candle) :
    Spec (fun b => I b ∧ target ≠ currentTarget b.state.position)
      (executeTarget outside cfg rules target bar : Part S Unit) (fun _ => I) R

variable {outside : Outside} {cfg : LiveTradeConfig σ} {rules : SymbolRules} {I : Book → Prop}
  {R : Halt → Book → Prop} (kept : Kept S outside cfg rules I R) (strategy : Strategy σ)
include kept

theorem kept_save : Spec I (Part.saveRunState outside : Part S Unit) (fun _ => I) R :=
  spec_saveRunState outside (fun _ _ h => kept.ends h) (fun _ _ h hsave => kept.saves h hsave)
    fun _ _ _ _ h hsave => kept.ends (kept.saves h hsave)

theorem kept_quiet {α : Type} {x : Part S α} (hx : Quiet x) : Spec I x (fun _ => I) R :=
  spec_quiet hx fun _ _ h => kept.ends h

theorem kept_onBar (bar : Candle) (d : Driver σ) :
    Spec I (onBar strategy bar d : Part S (Option TargetPosition × Driver σ)) (fun _ => I) R := by
  refine spec_after runState_quiet (fun _ _ h => kept.ends h) fun state => ?_
  refine spec_bind (Q := fun _ => I) (spec_record fun _ h => kept.feeds h) fun _ => ?_
  exact spec_bind (kept_quiet kept (callback_quiet _)) fun _ => spec_pure fun _ h => h

theorem kept_replay (bars : List Candle) (target : TargetPosition) (d : Driver σ) :
    Spec I (replay strategy bars target d : Part S (TargetPosition × Driver σ)) (fun _ => I) R := by
  induction bars generalizing target d with
  | nil => exact spec_pure fun _ h => h
  | cons bar bars ih => exact spec_bind (kept_onBar kept strategy bar d) fun _ => ih _ _

theorem kept_setLastProcessed (openTimeMs : Option Int64) :
    Spec I (setLastProcessed outside openTimeMs : Part S Unit) (fun _ => I) R := by
  refine spec_runState fun state => spec_now outside fun updatedAtMs => ?_
  exact spec_setState fun b h => kept.moves h.1 (by rw [h.2]) (by rw [h.2])

theorem kept_follow (desired : TargetPosition) (bar : Candle) :
    Spec I (follow outside cfg rules desired bar : Part S Unit) (fun _ => I) R := by
  refine spec_runState fun state => ?_
  split_ifs with hdiffers
  · exact spec_weaken (kept.acts desired bar) (fun b h => ⟨h.1, by rw [h.2]; exact hdiffers⟩)
      fun _ _ h => h
  · exact spec_pure fun _ h => h.1

theorem kept_enterBootstrap (bars : List Candle) (target : TargetPosition) :
    Spec I (enterBootstrap outside cfg rules bars target : Part S Unit) (fun _ => I) R := by
  refine spec_runState fun state => ?_
  split_ifs with henter
  · cases bars.getLast? with
    | none => exact spec_pure fun _ h => h.1
    | some bar =>
      exact spec_weaken (kept.acts target bar) (fun b h => ⟨h.1, by rw [h.2]; exact henter.2⟩)
        fun _ _ h => h
  · exact spec_pure fun _ h => h.1

theorem kept_bootstrap (bars : List Candle) (d : Driver σ) :
    Spec I (bootstrap outside cfg rules strategy bars d : Part S (Driver σ)) (fun _ => I) R := by
  refine spec_after runState_quiet (fun _ _ h => kept.ends h) fun run => ?_
  refine spec_bind (kept_replay kept strategy bars _ d) fun replayed => ?_
  refine spec_bind (Q := fun _ => I) ?_ fun _ => spec_pure fun _ h => h
  refine spec_after runState_quiet (fun _ _ h => kept.ends h) fun state => ?_
  split_ifs
  · refine spec_bind (kept_setLastProcessed kept _) fun _ => ?_
    exact spec_bind (kept_enterBootstrap kept bars _) fun _ => kept_save kept
  · exact spec_pure fun _ h => h

theorem kept_processBar (bar : Candle) (d : Driver σ) :
    Spec I (processBar outside cfg rules strategy bar d : Part S (Driver σ)) (fun _ => I) R := by
  refine spec_after runState_quiet (fun _ _ h => kept.ends h) fun state => ?_
  refine spec_bind (kept_onBar kept strategy bar d) fun answered => ?_
  refine spec_bind (kept_follow kept _ bar) fun _ => ?_
  refine spec_bind (Q := fun _ => I) ?_ fun _ => spec_pure fun _ h => h
  refine spec_bind (kept_setLastProcessed kept _) fun _ => ?_
  exact spec_bind (kept_save kept) fun _ => spec_modifySummary fun _ h => h

theorem kept_processBars (bars : List Candle) (d : Driver σ) :
    Spec I (processBars outside cfg rules strategy bars d : Part S (Driver σ)) (fun _ => I) R := by
  induction bars generalizing d with
  | nil => exact spec_pure fun _ h => h
  | cons bar bars ih =>
    refine spec_after runState_quiet (fun _ _ h => kept.ends h) fun state => ?_
    split_ifs
    · exact ih d
    · exact spec_bind (kept_processBar kept strategy bar d) fun d => ih d

variable [CandleStore S]

theorem kept_polls (sleeps loops : Nat) (d : Driver σ) :
    Spec I (polls outside cfg rules strategy sleeps loops d : Part S (Driver σ)) (fun _ => I) R := by
  have onePoll (d : Driver σ) :
      Spec I (poll outside cfg rules strategy d : Part S (Driver σ)) (fun _ => I) R :=
    spec_bind (kept_quiet kept (loadNew_quiet outside cfg)) fun bars =>
      kept_processBars kept strategy bars d
  induction sleeps generalizing loops d with
  | zero =>
    refine spec_bind (onePoll d) fun d => ?_
    split_ifs
    · exact spec_pure fun _ h => h
    · exact spec_pure fun _ h => h
  | succ sleeps ih =>
    refine spec_bind (onePoll d) fun d => ?_
    split_ifs
    · exact spec_pure fun _ h => h
    · exact ih (loops + 1) d

/-- What every part of a run keeps, the run keeps. -/
theorem kept_runInner (sleeps : Nat) (state : σ) :
    Spec I (runInner outside cfg rules strategy sleeps state : Part S Unit) (fun _ => I) R := by
  have warms : Spec I (warmUp outside cfg strategy state : Part S (List Candle × Driver σ))
      (fun _ => I) R := by
    refine spec_bind (kept_save kept) fun _ => ?_
    refine spec_after (nowUtcMs_quiet outside) (fun _ _ h => kept.ends h) fun now => ?_
    refine spec_after runState_quiet (fun _ _ h => kept.ends h) fun run => ?_
    refine spec_bind (kept_quiet kept (ofExcept_quiet _)) fun first => ?_
    exact kept_quiet kept (loadBootstrap_quiet outside cfg strategy first now state)
  refine spec_bind warms fun loaded => ?_
  refine spec_bind (kept_bootstrap kept strategy loaded.1 loaded.2) fun d => ?_
  refine spec_bind (kept_polls kept strategy sleeps 0 d) fun d => ?_
  exact spec_bind (kept_quiet kept (callback_quiet _)) fun _ => spec_pure fun _ h => h

end QuantForge.Live
