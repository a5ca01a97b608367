import QuantForge.Cli.Invocation

namespace QuantForge.Cli

open Live Storage

variable {σ : Type}

/-- The run and the identity, where a write takes effect. -/
def granted (outcome : WriteOutcome) (next : Except StorageError RunRecords) (runId : String)
    (identity : RunIdentity) : Option (String × RunIdentity) :=
  if outcome.effect && next.isOk then some (runId, identity) else none

/-- The run whose identity a step writes, and that identity. -/
def identityWritten (choice : Choice) (w : Shared) (p : Process σ) : Option (String × RunIdentity) :=
  match p, choice with
  | .begins (.createRun state identity), .writes _ outcome =>
    granted outcome (w.runs.createRun state identity) state.runId identity
  | .begins (.adoptRun runId identity mode), .writes _ outcome =>
    granted outcome (w.runs.adoptRun runId identity mode) runId identity
  | .creating cfg runId, .writes nowMs outcome =>
    granted outcome (w.runs.createRun (newRun cfg runId nowMs) cfg.identity) runId cfg.identity
  | _, _ => none

/-- A run's exchange, symbol and execution mode. -/
structure SameRun (a b : BotRunState) : Prop where
  runId : a.runId = b.runId
  exchange : a.market.exchange = b.market.exchange
  symbol : a.market.symbol = b.market.symbol
  mode : a.executionMode = b.executionMode

/-- The states that a process saves. -/
def Saves (state : BotRunState) (choice : Choice) (p : Process σ) : Prop :=
  match p, choice with
  | .begins (.saveRunState saved), .writes _ _ => state = saved
  | .driving _ runState, .saves _ _ => SameRun runState state
  | .sold runState, .books _ _ _ _ => SameRun runState state
  | _, _ => False

/-- The orders that a process sends. -/
def Sends (order : RunOrder) : Process σ → Prop
  | .driving cfg runState => cfg.executionMode = .live ∧ order.runId = runState.runId ∧
      order.exchange = cfg.market.exchange ∧ order.request.symbol = cfg.market.symbol ∧
      order.mode = .live ∧ order.identity = cfg.identity
  | .closing ctx args runState => order.runId = runState.runId ∧ order.exchange = ctx.exchangeId ∧
      order.request.symbol = args.symbol ∧ order.mode = .live ∧
      order.identity = ctx.runIdentity .live
  | _ => False

/-- What a step does to what processes share. -/
inductive Wrote (choice : Choice) (w : Shared) (p : Process σ) : Shared → Prop
  | nothing : identityWritten choice w p = none → Wrote choice w p w
  | creates {state : BotRunState} {identity : RunIdentity} {runs : RunRecords} :
    w.runs.createRun state identity = .ok runs →
    identityWritten choice w p = some (state.runId, identity) → Wrote choice w p { w with runs }
  | saves {state : BotRunState} {runs : RunRecords} : Saves state choice p →
    w.runs.saveRunState state = .ok runs → identityWritten choice w p = none →
    Wrote choice w p { w with runs }
  | adopts {runId : String} {identity : RunIdentity} {mode : Option ExecutionMode}
    {runs : RunRecords} : w.runs.adoptRun runId identity mode = .ok runs →
    identityWritten choice w p = some (runId, identity) → Wrote choice w p { w with runs }
  | sends {order : RunOrder} : Sends order p → identityWritten choice w p = none →
    Wrote choice w p (w.send order)

/-- A write leaves the store as it was, or as the call leaves it. -/
theorem write_cases (w : Shared) (outcome : WriteOutcome) (next : Except StorageError RunRecords) :
    ((w.write outcome next).1 = w ∧ (outcome.effect && next.isOk) = false) ∨
      ∃ runs, next = .ok runs ∧ (w.write outcome next).1 = { w with runs } ∧
        (outcome.effect && next.isOk) = true := by
  cases next with
  | error error => exact .inl ⟨rfl, by cases outcome.effect <;> rfl⟩
  | ok runs =>
    cases heffect : outcome.effect with
    | false =>
      left
      simp [Shared.write, heffect]
    | true =>
      right
      exact ⟨runs, rfl, by simp [Shared.write, heffect], rfl⟩

variable [DecimalMath]

omit [DecimalMath] in
theorem identityWritten_ends (w : Shared) (p : Process σ) : identityWritten .ends w p = none := by
  cases p with
  | begins invocation => cases invocation <;> rfl
  | _ => rfl

omit [DecimalMath] in
theorem saved_wrote {choice : Choice} {w : Shared} {p : Process σ} {state : BotRunState}
    (outcome : WriteOutcome) (saves : Saves state choice p) (none_ : identityWritten choice w p = none) :
    Wrote choice w p (w.write outcome (w.runs.saveRunState state)).1 := by
  rcases write_cases w outcome (w.runs.saveRunState state) with ⟨same, -⟩ | ⟨runs, hruns, next, -⟩
  · rw [same]
    exact .nothing none_
  · rw [next]
    exact .saves saves hruns none_

theorem soldRun_same {rules : SymbolRules} {order : ExchangeOrder} {nowMs : Int64}
    {runState after : BotRunState} (h : soldRun rules order nowMs runState = .ok (some after)) :
    SameRun runState after := by
  unfold soldRun at h
  cases hexecuted : order.executedQty with
  | none =>
    rw [hexecuted] at h
    cases h
  | some executedQty =>
    simp only [hexecuted] at h
    split_ifs at h
    · obtain ⟨difference, -, h⟩ := bind_ok.mp h
      obtain ⟨dust, -, h⟩ := bind_ok.mp h
      split_ifs at h
      · rw [← Option.some.inj (Except.ok.inj h)]
        exact ⟨rfl, rfl, rfl, rfl⟩
      · rw [← Option.some.inj (Except.ok.inj h)]
        exact ⟨rfl, rfl, rfl, rfl⟩
    · cases h

theorem sellRequest_symbol {args : TradeCloseArgs} {rules : SymbolRules}
    {balances : List AssetBalance} {runState : BotRunState} {nowMs : Int64}
    {request : MarketOrderRequest}
    (h : sellRequest args rules balances runState nowMs = .ok (some request)) :
    request.symbol = args.symbol := by
  unfold sellRequest at h
  obtain ⟨qty, -, h⟩ := bind_ok.mp h
  split_ifs at h
  · cases h
  · rw [← Option.some.inj (Except.ok.inj h)]

/-- Each step makes at most one call that changes what is shared. -/
theorem step_wrote {choice : Choice} {w v : Shared} {p q : Process σ}
    (h : step choice w p = some (v, q)) : Wrote choice w p v := by
  revert h
  fun_cases step choice w p with
  | case1 =>
    intro h
    obtain ⟨rfl, -⟩ := Prod.mk.inj (Option.some.inj h)
    exact .nothing (identityWritten_ends w p)
  | case2 state identity nowMs outcome =>
    intro h
    obtain ⟨rfl, -⟩ := Prod.mk.inj (Option.some.inj h)
    rcases write_cases w outcome (w.runs.createRun state identity) with
      ⟨same, void⟩ | ⟨runs, hruns, next, took⟩
    · rw [same]
      exact .nothing (by simp [identityWritten, granted, void])
    · rw [next]
      exact .creates hruns (if_pos took)
  | case3 state nowMs outcome =>
    intro h
    obtain ⟨rfl, -⟩ := Prod.mk.inj (Option.some.inj h)
    exact saved_wrote outcome rfl rfl
  | case4 runId identity mode nowMs outcome =>
    intro h
    obtain ⟨rfl, -⟩ := Prod.mk.inj (Option.some.inj h)
    rcases write_cases w outcome (w.runs.adoptRun runId identity mode) with
      ⟨same, void⟩ | ⟨runs, hruns, next, took⟩
    · rw [same]
      exact .nothing (by simp [identityWritten, granted, void])
    · rw [next]
      exact .adopts hruns (if_pos took)
  | case5 cfg uuid =>
    intro h
    obtain ⟨rfl, -⟩ := Prod.mk.inj (Option.some.inj h)
    exact .nothing rfl
  | case6 cfg runId nowMs outcome =>
    intro h
    have left : v = (w.write outcome (w.runs.createRun (newRun cfg runId nowMs) cfg.identity)).1 := by
      have made : (createTrade cfg runId nowMs outcome w).1 = v :=
        congrArg Prod.fst (Option.some.inj h)
      rw [← made]
      unfold createTrade
      split
      · next hwrite => rw [hwrite]
      · next hwrite => rw [hwrite]
    rw [left]
    rcases write_cases w outcome (w.runs.createRun (newRun cfg runId nowMs) cfg.identity) with
      ⟨same, void⟩ | ⟨runs, hruns, next, took⟩
    · rw [same]
      exact .nothing (by simp [identityWritten, granted, void])
    · rw [next]
      exact .creates hruns (if_pos took)
  | case7 cfg runId existing uuid =>
    intro h
    obtain ⟨rfl, -⟩ := Prod.mk.inj (Option.some.inj h)
    exact .nothing rfl
  | case8 => intro h; cases h
  | case9 cfg runState side quantity quoteOrderQty newClientOrderId live =>
    intro h
    obtain ⟨rfl, -⟩ := Prod.mk.inj (Option.some.inj h)
    exact .sends ⟨live, rfl, rfl, rfl, live, rfl⟩ rfl
  | case10 cfg runState progress outcome =>
    intro h
    obtain ⟨rfl, -⟩ := Prod.mk.inj (Option.some.inj h)
    exact saved_wrote outcome ⟨rfl, rfl, rfl, rfl⟩ rfl
  | case11 ctx args uuid =>
    intro h
    obtain ⟨rfl, -⟩ := Prod.mk.inj (Option.some.inj h)
    exact .nothing rfl
  | case12 ctx args runState uuid =>
    intro h
    obtain ⟨rfl, -⟩ := Prod.mk.inj (Option.some.inj h)
    exact .nothing rfl
  | case13 ctx args runState rules balances nowMs request hrequest =>
    intro h
    obtain ⟨rfl, -⟩ := Prod.mk.inj (Option.some.inj h)
    exact .sends ⟨rfl, rfl, sellRequest_symbol hrequest, rfl, rfl⟩ rfl
  | case14 =>
    intro h
    obtain ⟨rfl, -⟩ := Prod.mk.inj (Option.some.inj h)
    exact .nothing rfl
  | case15 runState rules order nowMs outcome after hsold =>
    intro h
    obtain ⟨rfl, -⟩ := Prod.mk.inj (Option.some.inj h)
    exact saved_wrote outcome (soldRun_same hsold) rfl
  | case16 =>
    intro h
    obtain ⟨rfl, -⟩ := Prod.mk.inj (Option.some.inj h)
    exact .nothing rfl
  | case17 => intro h; cases h

end QuantForge.Cli
