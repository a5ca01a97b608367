import QuantForge.Cli.Driven
import QuantForge.Engine.Live

namespace QuantForge.Cli

open Live Storage

variable {σ : Type}

section Recorded

theorem SameRun.symm {a b : BotRunState} (h : SameRun a b) : SameRun b a :=
  ⟨h.runId.symm, h.exchange.symm, h.symbol.symm, h.mode.symm⟩

theorem SameRun.trans {a b c : BotRunState} (h : SameRun a b) (h' : SameRun b c) : SameRun a c :=
  ⟨h.runId.trans h'.runId, h.exchange.trans h'.exchange, h.symbol.trans h'.symbol,
    h.mode.trans h'.mode⟩

/-- A run is recorded with the exchange, symbol and mode of `held`. -/
def Recorded (runs : RunRecords) (held : BotRunState) : Prop :=
  ∃ record state, runs.find held.runId = some record ∧ record.json = .run state ∧ SameRun state held

/-- The state that a process holds of its run. -/
def Process.held : Process σ → Option BotRunState
  | .resuming _ _ existing => some existing
  | .driving _ runState | .identifying _ _ runState | .closing _ _ runState | .sold runState =>
    some runState
  | _ => none

/-- A call of `save_run_state` keeps the exchange, symbol and mode that its run is
recorded with. -/
def Promised (choice : Choice) (w : Shared) (p : Process σ) : Prop :=
  match p, choice with
  | .begins (.saveRunState state), .writes _ _ =>
    ∀ record old, w.runs.find state.runId = some record → record.json = .run old → SameRun old state
  | _, _ => True

/-- A process saves states like the one its run is recorded with. -/
theorem saves_same {choice : Choice} {w : Shared} {p : Process σ} {state old : BotRunState}
    {record : RunRecord} (promised : Promised choice w p)
    (held : ∀ held, p.held = some held → Recorded w.runs held) (saves : Saves state choice p)
    (found : w.runs.find state.runId = some record) (json : record.json = .run old) :
    SameRun old state := by
  have mine {runState : BotRunState} (hheld : p.held = some runState)
      (same : SameRun runState state) : SameRun old state := by
    obtain ⟨mine, before, hmine, hbefore, sameHeld⟩ := held runState hheld
    rw [same.runId, found] at hmine
    obtain rfl := Option.some.inj hmine
    rw [json] at hbefore
    cases hbefore
    exact sameHeld.trans same
  unfold Saves at saves
  split at saves
  · rw [saves] at found ⊢
    exact promised record old found json
  · exact mine rfl saves
  · exact mine rfl saves
  · exact saves.elim

/-- The runs recorded in `w` are recorded alike in `v`. -/
def Steady (w v : Shared) : Prop := ∀ held, Recorded w.runs held → Recorded v.runs held

theorem wrote_steady {choice : Choice} {w v : Shared} {p : Process σ} (h : Wrote choice w p v)
    (promised : Promised choice w p) (held : ∀ held, p.held = some held → Recorded w.runs held) :
    Steady w v := by
  rintro like ⟨record, state, hrecord, json, same⟩
  cases h with
  | nothing => exact ⟨record, state, hrecord, json, same⟩
  | sends => exact ⟨record, state, hrecord, json, same⟩
  | @creates created identity runs hruns =>
    obtain ⟨-, fresh, rfl⟩ := RunRecords.createRun_ok hruns
    rcases w.runs.find_put_or ⟨created.runId, created.market, created.strategyName, .run created,
      created.startedAtMs, created.updatedAtMs, identityColumns identity⟩ like.runId with
      ⟨key, -⟩ | ⟨-, kept⟩
    · have key_ : created.runId = like.runId := key
      rw [key_, hrecord] at fresh
      cases fresh
    · exact ⟨record, state, by rw [kept, hrecord], json, same⟩
  | @saves saved runs saves hruns =>
    obtain ⟨old, hold, rfl⟩ := RunRecords.saveRunState_ok hruns
    rcases w.runs.find_put_or { old with json := .run saved, updatedAtMs := saved.updatedAtMs }
      like.runId with ⟨key, put⟩ | ⟨-, kept⟩
    · have key_ : saved.runId = like.runId := (RunRecords.find_runId hold).symm.trans key
      have found := hold
      rw [key_, hrecord] at found
      obtain rfl := Option.some.inj found
      have next := saves_same promised held saves hold json
      exact ⟨_, saved, put, rfl, next.symm.trans same⟩
    · exact ⟨record, state, by rw [kept, hrecord], json, same⟩
  | @adopts adopted identity mode runs hruns =>
    obtain ⟨-, old, after, hold, -, from_, rfl⟩ := RunRecords.adoptRun_ok hruns
    rcases w.runs.find_put_or { old with json := .run after, identity := identityColumns identity }
      like.runId with ⟨key, put⟩ | ⟨-, kept⟩
    · have key_ : adopted = like.runId := (RunRecords.find_runId hold).symm.trans key
      rw [key_, hrecord] at hold
      obtain rfl := Option.some.inj hold
      rw [json] at from_
      rcases from_ with run | ⟨before, stated, unmoded, -⟩
      · cases run
        exact ⟨_, state, put, rfl, same⟩
      · cases unmoded
    · exact ⟨record, state, by rw [kept, hrecord], json, same⟩

theorem Recorded.like {runs : RunRecords} {a b : BotRunState} (h : Recorded runs a)
    (same : SameRun a b) : Recorded runs b := by
  obtain ⟨record, state, hrecord, json, alike⟩ := h
  exact ⟨record, state, by rw [← same.runId, hrecord], json, alike.trans same⟩

/-- A process holds states like the ones its run is recorded with. -/
def Holding (runs : RunRecords) (p : Process σ) : Prop := ∀ held, p.held = some held → Recorded runs held

theorem holding_none {runs : RunRecords} {p : Process σ} (h : p.held = none) : Holding runs p := by
  intro held hheld
  rw [h] at hheld
  cases hheld

theorem holding_some {runs : RunRecords} {p : Process σ} {held : BotRunState} (h : p.held = some held)
    (recorded : Recorded runs held) : Holding runs p := by
  intro other hother
  rw [h] at hother
  rw [← Option.some.inj hother]
  exact recorded

/-- A state that is read is the one recorded. -/
theorem recorded_found {runs : RunRecords} {runId : String} {record : RunRecord}
    {state : BotRunState} (sound : Sound runs) (found : runs.find runId = some record)
    (json : record.json = .run state) : Recorded runs state := by
  have ofRun := (sound runId record found).2 state (.inl json)
  exact ⟨record, state, by rw [ofRun, found], json, rfl, rfl, rfl, rfl⟩

theorem startTrade_holding {cfg : LiveTradeConfig σ} {uuid : String} {runs : RunRecords}
    (sound : Sound runs) : Holding runs (startTrade cfg uuid runs) := by
  fun_cases startTrade cfg uuid runs with
  | case6 _ runId _ existing loaded =>
    obtain ⟨record, found, json⟩ := RunRecords.loadRunState_ok loaded
    exact holding_some rfl (recorded_found sound found json)
  | _ => exact holding_none rfl

theorem resumeTrade_holding {cfg : LiveTradeConfig σ} {runId : String} {existing : BotRunState}
    {runs : RunRecords} (holding : Holding runs (.resuming cfg runId existing)) :
    Holding runs (resumeTrade cfg runId existing runs) := by
  unfold resumeTrade
  split
  · split
    · exact holding_some rfl (holding existing rfl)
    · exact holding_none rfl
  · exact holding_none rfl

theorem createTrade_holding {cfg : LiveTradeConfig σ} {runId : String} {nowMs : Int64}
    {outcome : WriteOutcome} {w : Shared} :
    Holding (createTrade cfg runId nowMs outcome w).1.runs
      (createTrade cfg runId nowMs outcome w).2 := by
  unfold createTrade
  cases hnext : w.runs.createRun (newRun cfg runId nowMs) cfg.identity with
  | error error => exact holding_none rfl
  | ok runs =>
    cases outcome with
    | failed error effect => exact holding_none rfl
    | done =>
      obtain ⟨-, -, rfl⟩ := RunRecords.createRun_ok hnext
      exact holding_some rfl ⟨_, _, Table.find_put _ _, rfl, rfl, rfl, rfl, rfl⟩

theorem startClose_holding {ctx : AppContext} {args : TradeCloseArgs} {runs : RunRecords}
    (sound : Sound runs) : Holding runs (startClose ctx args runs : Process σ) := by
  unfold startClose
  split_ifs
  · split
    · next runState selected =>
      split
      · refine holding_some rfl ?_
        unfold selectRun at selected
        cases hrunId : args.runId with
        | some runId =>
          rw [hrunId] at selected
          obtain ⟨record, found, json⟩ := RunRecords.loadRunState_ok selected
          exact recorded_found sound found json
        | none =>
          rw [hrunId] at selected
          obtain ⟨record, found, json⟩ := RunRecords.latestRunForMarket_ok selected
          exact recorded_found sound found json
      · exact holding_none rfl
    · exact holding_none rfl
  · exact holding_none rfl

theorem identifyClose_holding {ctx : AppContext} {args : TradeCloseArgs} {runState : BotRunState}
    {runs : RunRecords} (recorded : Recorded runs runState) :
    Holding runs (identifyClose ctx args runState runs : Process σ) := by
  unfold identifyClose
  split
  · split
    · exact holding_some rfl recorded
    · exact holding_none rfl
  · exact holding_none rfl

theorem step_holding [DecimalMath] {choice : Choice} {w v : Shared} {p q : Process σ}
    (sound : Sound w.runs) (promised : Promised choice w p) (holding : Holding w.runs p)
    (h : step choice w p = some (v, q)) : Holding v.runs q := by
  have steady := wrote_steady (step_wrote h) promised holding
  revert h
  fun_cases step choice w p with
  | case5 cfg uuid =>
    intro h
    obtain ⟨rfl, rfl⟩ := Prod.mk.inj (Option.some.inj h)
    exact startTrade_holding sound
  | case6 cfg runId nowMs outcome =>
    intro h
    have made := @createTrade_holding _ cfg runId nowMs outcome w
    rw [Option.some.inj h] at made
    exact made
  | case7 cfg runId existing uuid =>
    intro h
    obtain ⟨rfl, rfl⟩ := Prod.mk.inj (Option.some.inj h)
    exact resumeTrade_holding holding
  | case9 cfg runState =>
    intro h
    obtain ⟨rfl, rfl⟩ := Prod.mk.inj (Option.some.inj h)
    exact holding
  | case10 cfg runState progress outcome =>
    intro h
    obtain ⟨rfl, rfl⟩ := Prod.mk.inj (Option.some.inj h)
    have same : SameRun runState (progress.apply runState) := ⟨rfl, rfl, rfl, rfl⟩
    exact holding_some rfl (steady _ ((holding runState rfl).like same))
  | case11 ctx args uuid =>
    intro h
    obtain ⟨rfl, rfl⟩ := Prod.mk.inj (Option.some.inj h)
    exact startClose_holding sound
  | case12 ctx args runState uuid =>
    intro h
    obtain ⟨rfl, rfl⟩ := Prod.mk.inj (Option.some.inj h)
    exact identifyClose_holding (holding runState rfl)
  | case13 ctx args runState =>
    intro h
    obtain ⟨rfl, rfl⟩ := Prod.mk.inj (Option.some.inj h)
    exact holding_some rfl (holding runState rfl)
  | case8 => intro h; cases h
  | case17 => intro h; cases h
  | _ =>
    intro h
    obtain ⟨-, rfl⟩ := Prod.mk.inj (Option.some.inj h)
    exact holding_none rfl

/-- An order for a run that is recorded with its exchange, symbol and mode. -/
def OnRecord (runs : RunRecords) (order : RunOrder) : Prop :=
  ∃ record state, runs.find order.runId = some record ∧ record.json = .run state ∧
    state.market.exchange = order.exchange ∧ state.market.symbol = order.request.symbol ∧
    state.executionMode = order.mode

theorem onRecord_of_sends {runs : RunRecords} {order : RunOrder} {p : Process σ} (own : Own runs p)
    (holding : Holding runs p) (h : Sends order p) : OnRecord runs order := by
  cases p with
  | driving cfg runState =>
    obtain ⟨live, runId, exchange, symbol, mode, -⟩ := h
    obtain ⟨record, state, found, json, same⟩ := holding runState rfl
    obtain ⟨fitsExchange, fitsSymbol, fitsMode⟩ := own.2.1
    refine ⟨record, state, by rw [runId, found], json, ?_, ?_, ?_⟩
    · rw [same.exchange, fitsExchange, exchange]
    · rw [same.symbol, fitsSymbol, symbol]
    · rw [same.mode, fitsMode, live, mode]
  | closing ctx args runState =>
    obtain ⟨runId, exchange, symbol, mode, -⟩ := h
    obtain ⟨record, state, found, json, same⟩ := holding runState rfl
    obtain ⟨closesExchange, closesSymbol, closesMode⟩ := checkRun_ok own.1.2
    refine ⟨record, state, by rw [runId, found], json, ?_, ?_, ?_⟩
    · rw [same.exchange, closesExchange, exchange]
      rfl
    · rw [same.symbol, closesSymbol, symbol]
      rfl
    · rw [same.mode, closesMode, mode]
  | _ => exact h.elim

theorem Steady.onRecord {w v : Shared} {order : RunOrder} (h : Steady w v)
    (sound : Sound w.runs) (onRecord : OnRecord w.runs order) : OnRecord v.runs order := by
  obtain ⟨record, state, found, json, exchange, symbol, mode⟩ := onRecord
  have ofRun := (sound _ record found).2 state (.inl json)
  obtain ⟨next, after, hnext, hafter, same⟩ := h state (recorded_found sound found json)
  rw [ofRun] at hnext
  exact ⟨next, after, hnext, hafter, same.exchange.trans exchange, same.symbol.trans symbol,
    same.mode.trans mode⟩

/-- The orders are of the exchange, symbol and mode that their runs are recorded
with. -/
def Placed (w : Shared) : Prop := Lawful w ∧ ∀ order ∈ w.orders, OnRecord w.runs order

/-- Where calls of `save_run_state` keep what a run is recorded with, every process
does. -/
theorem processes_keep_records [DecimalMath] :
    (processes : Crowd Shared (Process σ) (Invocation σ) Choice).Keeps Placed
      (fun w _ p => Own w.runs p ∧ Holding w.runs p) fun _ => Promised where
  enters _ _ _ := ⟨trivial, holding_none rfl⟩
  own := by
    intro who choice w v p q hw hp promised hstep
    have wrote := step_wrote hstep
    have steady := wrote_steady wrote promised hp.2
    refine ⟨⟨wrote_lawful wrote hp.1 hw.1, ?_⟩, step_own hw.1.1 hp.1 hstep,
      step_holding hw.1.1 promised hp.2 hstep⟩
    have kept (order : RunOrder) (old : order ∈ w.orders) : OnRecord v.runs order :=
      steady.onRecord hw.1.1 (hw.2 order old)
    cases wrote with
    | @sends order sent =>
      intro other hother
      rcases List.mem_append.mp hother with old | last
      · exact kept other old
      · rw [List.mem_singleton.mp last]
        exact onRecord_of_sends hp.1 hp.2 sent
    | _ => exact kept
  others := by
    intro who other choice w v p q r hw hp promised hstep _ hr
    have wrote := step_wrote hstep
    have steady := wrote_steady wrote promised hp.2
    exact ⟨(wrote_follows wrote).own hr.1, fun held hheld => steady held (hr.2 held hheld)⟩

end Recorded

section Written

/-- The identity that was written, where it was written for this run. -/
def writtenFor (runId : String) (written : Option (String × RunIdentity)) : Option RunIdentity :=
  written.bind fun x => if x.1 = runId then some x.2 else none

/-- The columns of a run's identity. -/
def columnsOf (runs : RunRecords) (runId : String) : Option IdentityColumns :=
  (runs.find runId).map (·.identity)

theorem columns_put {runs : RunRecords} {record : RunRecord} {runId written : String}
    {identity : RunIdentity} (key : record.runId = written)
    (columns : record.identity = identityColumns identity) :
    columnsOf (runs.put record) runId =
      ((writtenFor runId (some (written, identity))).map identityColumns).or
        (columnsOf runs runId) := by
  unfold columnsOf writtenFor
  rw [Option.bind_some]
  rcases runs.find_put_or record runId with ⟨same, put⟩ | ⟨other, kept⟩
  · rw [key] at same
    rw [put, if_pos same, Option.map_some, columns]
    rfl
  · rw [key] at other
    rw [kept, if_neg other]
    rfl

/-- A step leaves a run the columns it writes, or those it had. -/
theorem wrote_columns {choice : Choice} {w v : Shared} {p : Process σ} (h : Wrote choice w p v)
    (runId : String) :
    columnsOf v.runs runId =
      ((writtenFor runId (identityWritten choice w p)).map identityColumns).or
        (columnsOf w.runs runId) := by
  cases h with
  | nothing none_ =>
    rw [none_]
    rfl
  | sends _ none_ =>
    rw [none_]
    rfl
  | @creates state identity runs hruns writes =>
    obtain ⟨-, -, rfl⟩ := RunRecords.createRun_ok hruns
    rw [writes]
    exact columns_put rfl rfl
  | @saves state runs _ hruns none_ =>
    obtain ⟨old, hold, rfl⟩ := RunRecords.saveRunState_ok hruns
    rw [none_]
    show (Table.find (w.runs.put _) runId).map _ = (w.runs.find runId).map _
    rcases w.runs.find_put_or { old with json := .run state, updatedAtMs := state.updatedAtMs } runId
      with ⟨rfl, put⟩ | ⟨-, kept⟩
    · rw [← RunRecords.find_runId hold] at hold
      rw [put, hold]
      rfl
    · rw [kept]
  | @adopts adopted identity mode runs hruns writes =>
    obtain ⟨-, old, state, hold, -, -, rfl⟩ := RunRecords.adoptRun_ok hruns
    have key : old.runId = adopted := RunRecords.find_runId hold
    rw [writes]
    exact columns_put key rfl

variable [DecimalMath]

/-- The identity that a step writes for a run. -/
def written (runId : String) (s : Crowd.Scene Shared (Process σ)) :
    Crowd.Op (Invocation σ) Choice → Option RunIdentity
  | .enters _ => none
  | .acts who choice => s.members[who]?.bind fun p =>
    writtenFor runId (identityWritten choice s.world p)

theorem identityWritten_none {choice : Choice} {w : Shared} {p : Process σ}
    (h : step choice w p = none) : identityWritten choice w p = none := by
  revert h
  fun_cases identityWritten choice w p with
  | case4 => exact fun _ => rfl
  | _ =>
    intro h
    cases h

theorem next_columns (s : Crowd.Scene Shared (Process σ)) (op : Crowd.Op (Invocation σ) Choice)
    (runId : String) :
    columnsOf (processes.machine.next s op).world.runs runId =
      ((written runId s op).map identityColumns).or (columnsOf s.world.runs runId) := by
  cases op with
  | enters a => rfl
  | acts who choice =>
    cases hwho : s.members[who]? with
    | none => simp [Machine.next, Crowd.machine, written, hwho]
    | some p =>
      cases hstep : step choice s.world p with
      | none =>
        have none_ := identityWritten_none hstep
        simp [Machine.next, Crowd.machine, processes, written, hwho, hstep, none_, writtenFor]
      | some left =>
        have columns := wrote_columns (step_wrote hstep) runId
        simp only [Machine.next, Crowd.machine, hwho, processes, hstep, written, Option.bind_some,
          columns]

/-- A run's columns are those of the latest identity written for it. -/
theorem run_columns (s : Crowd.Scene Shared (Process σ)) (ops : List (Crowd.Op (Invocation σ) Choice))
    (runId : String) :
    columnsOf (processes.machine.run s ops).world.runs runId =
      ((processes.machine.latest (written runId) s ops).map identityColumns).or
        (columnsOf s.world.runs runId) := by
  induction ops generalizing s with
  | nil => rfl
  | cons op ops ih =>
    rw [Machine.run_cons, ih, next_columns, Machine.latest, Option.map_or, Option.or_assoc]

theorem next_follows (s : Crowd.Scene Shared (Process σ)) (op : Crowd.Op (Invocation σ) Choice) :
    Follows s.world (processes.machine.next s op).world := by
  cases op with
  | enters a => exact .refl s.world
  | acts who choice =>
    cases hwho : s.members[who]? with
    | none =>
      simp only [Machine.next, Crowd.machine, hwho]
      exact .refl s.world
    | some p =>
      cases hstep : step choice s.world p with
      | none =>
        simp only [Machine.next, Crowd.machine, processes, hwho, hstep]
        exact .refl s.world
      | some left =>
        simp only [Machine.next, Crowd.machine, processes, hwho, hstep]
        exact wrote_follows (step_wrote hstep)

theorem run_follows (s : Crowd.Scene Shared (Process σ))
    (ops : List (Crowd.Op (Invocation σ) Choice)) :
    Follows s.world (processes.machine.run s ops).world := by
  induction ops generalizing s with
  | nil => exact .refl s.world
  | cons op ops ih => exact (next_follows s op).trans (ih (processes.machine.next s op))

end Written

section Laws

variable [DecimalMath]

/-- An identity is written for a run that is not recorded yet, by its creation, or
for one recorded as legacy, by its adoption. -/
def WritesAllowed (s : Crowd.Scene Shared (Process σ)) (op : Crowd.Op (Invocation σ) Choice) : Prop :=
  ∀ runId identity, written runId s op = some identity →
    (s.world.runs.find runId = none ∧ identity.source ≠ .legacy) ∨
      ∃ record, s.world.runs.find runId = some record ∧
        record.identity.identitySource = IdentitySource.legacy.asStr ∧ identity.source = .adopted

omit [DecimalMath] in
theorem writtenFor_some {runId : String} {written : Option (String × RunIdentity)}
    {identity : RunIdentity} (h : writtenFor runId written = some identity) :
    written = some (runId, identity) := by
  unfold writtenFor at h
  obtain ⟨x, hx, hsome⟩ := Option.bind_eq_some_iff.mp h
  split_ifs at hsome with same
  rw [hx, ← same, ← Option.some.inj hsome]

omit [DecimalMath] in
theorem wrote_allowed {choice : Choice} {w v : Shared} {p : Process σ} (h : Wrote choice w p v)
    {runId : String} {identity : RunIdentity}
    (writes : identityWritten choice w p = some (runId, identity)) :
    (w.runs.find runId = none ∧ identity.source ≠ .legacy) ∨
      ∃ record, w.runs.find runId = some record ∧
        record.identity.identitySource = IdentitySource.legacy.asStr ∧ identity.source = .adopted := by
  cases h with
  | @creates state created runs hruns made =>
    obtain ⟨notLegacy, fresh, -⟩ := RunRecords.createRun_ok hruns
    rw [made] at writes
    cases writes
    exact .inl ⟨fresh, notLegacy⟩
  | @adopts adopted given mode runs hruns made =>
    obtain ⟨source, old, -, found, legacy, -⟩ := RunRecords.adoptRun_ok hruns
    rw [made] at writes
    cases writes
    exact .inr ⟨old, found, legacy, source⟩
  | nothing none_ =>
    rw [none_] at writes
    cases writes
  | saves _ _ none_ =>
    rw [none_] at writes
    cases writes
  | sends _ none_ =>
    rw [none_] at writes
    cases writes

theorem step_allowed (s : Crowd.Scene Shared (Process σ)) (op : Crowd.Op (Invocation σ) Choice) :
    WritesAllowed s op := by
  intro runId identity writes
  cases op with
  | enters a => cases writes
  | acts who choice =>
    obtain ⟨p, hwho, hwritten⟩ := Option.bind_eq_some_iff.mp writes
    have identified := writtenFor_some hwritten
    cases hstep : step choice s.world p with
    | none =>
      rw [identityWritten_none hstep] at identified
      cases identified
    | some left => exact wrote_allowed (step_wrote hstep) identified

/-- The laws of a store's runs and of the orders sent for them, from a start with
`runs` and no process. -/
structure DrivenAsRecorded (runs : RunRecords)
    (ops : List (Crowd.Op (Invocation σ) Choice)) : Prop where
  /-- Each identity is written by a creation, or by an adoption that found the run legacy. -/
  writes : processes.machine.Every WritesAllowed ⟨⟨runs, []⟩, []⟩ ops
  /-- From any moment on, a run keeps its identity, or has been adopted once. -/
  follows (front back : List (Crowd.Op (Invocation σ) Choice)) : ops = front ++ back →
    Follows (processes.machine.run ⟨⟨runs, []⟩, []⟩ front).world
      (processes.machine.run ⟨⟨runs, []⟩, []⟩ ops).world
  /-- The identity read for a run is the latest that was written for it. -/
  reads {runId : String} {identity : RunIdentity} :
    processes.machine.latest (written runId) ⟨⟨runs, []⟩, []⟩ ops = some identity →
    (processes.machine.run ⟨⟨runs, []⟩, []⟩ ops).world.runs.runIdentity runId = .ok (some identity)
  /-- Orders are sent in live mode, under the run's environment and account, never a legacy one. -/
  driven : ∀ order ∈ (processes.machine.run ⟨⟨runs, []⟩, []⟩ ops).world.orders,
    Driven (processes.machine.run ⟨⟨runs, []⟩, []⟩ ops).world.runs order
  /-- Where saves keep it, orders are of the exchange, symbol and mode recorded. -/
  onRecord : processes.machine.Every (Crowd.Takes fun _ => Promised) ⟨⟨runs, []⟩, []⟩ ops →
    ∀ order ∈ (processes.machine.run ⟨⟨runs, []⟩, []⟩ ops).world.orders,
      OnRecord (processes.machine.run ⟨⟨runs, []⟩, []⟩ ops).world.runs order

omit [DecimalMath] in
theorem runIdentity_of_columns {runs : RunRecords} {runId : String} {identity : RunIdentity}
    (h : columnsOf runs runId = some (identityColumns identity)) :
    runs.runIdentity runId = .ok (some identity) := by
  obtain ⟨record, found, columns⟩ := Option.map_eq_some_iff.mp h
  simp only [RunRecords.runIdentity, found, columns, identityFromColumns_identityColumns]
  rfl

/-- A run is driven only under the identity recorded for it, whatever processes
create, save, adopt, trade and close runs of one store, in any order of their calls. -/
theorem driven_as_recorded (runs : RunRecords) (sound : Sound runs)
    (ops : List (Crowd.Op (Invocation σ) Choice)) : DrivenAsRecorded runs ops where
  writes := by
    generalize (⟨⟨runs, []⟩, []⟩ : Crowd.Scene Shared (Process σ)) = s
    induction ops generalizing s with
    | nil => trivial
    | cons op ops ih => exact ⟨step_allowed s op, ih _⟩
  follows front back split := by
    rw [split, Machine.run_append]
    exact run_follows _ back
  reads {runId identity} latest := by
    apply runIdentity_of_columns
    rw [run_columns, latest]
    rfl
  driven := by
    have start : Crowd.Holds Lawful (fun w _ p => Own w.runs p)
        (⟨⟨runs, []⟩, []⟩ : Crowd.Scene Shared (Process σ)) :=
      ⟨⟨sound, fun order h => by cases h⟩, fun h => by cases h⟩
    exact (Crowd.keeps_run processes_keep start Crowd.takes_any).world.2
  onRecord promised := by
    have start : Crowd.Holds Placed (fun w _ p => Own w.runs p ∧ Holding w.runs p)
        (⟨⟨runs, []⟩, []⟩ : Crowd.Scene Shared (Process σ)) :=
      ⟨⟨⟨sound, fun order h => by cases h⟩, fun order h => by cases h⟩, fun h => by cases h⟩
    exact (Crowd.keeps_run processes_keep_records start promised).world.2

end Laws

theorem sound_empty : Sound Table.empty := by
  intro runId record h
  cases h

attribute [local instance] DecimalMath.exact_

/-- A session that creates its run and sends an order for it. -/
def sampleTrade : List (Crowd.Op (Invocation Unit) Choice) :=
  [.enters (.trade sampleConfig), .acts 0 (.reads ""), .acts 0 (.writes 0 .done),
    .acts 0 (.sends .buy none (some (.ofUInt32 10)) none)]

theorem sampleTrade_driven :
    (processes.machine.run ⟨⟨Table.empty, []⟩, []⟩ sampleTrade).world.orders.length = 1 ∧
      DrivenAsRecorded Table.empty sampleTrade :=
  ⟨by decide +kernel, driven_as_recorded Table.empty sound_empty sampleTrade⟩

/-- The same session, whose run another process saves as a dry run's before the
order. -/
def savedOver : List (Crowd.Op (Invocation Unit) Choice) :=
  [.enters (.trade sampleConfig), .acts 0 (.reads ""), .acts 0 (.writes 0 .done),
    .enters (.saveRunState { newRun sampleConfig "run" 0 with executionMode := .dryRun }),
    .acts 1 (.writes 0 .done), .acts 0 (.sends .buy none (some (.ofUInt32 10)) none)]

/-- A call of `save_run_state` may change the mode that a run is recorded with. -/
theorem savedOver_not_onRecord :
    ¬ ∀ order ∈ (processes.machine.run ⟨⟨Table.empty, []⟩, []⟩ savedOver).world.orders,
      OnRecord (processes.machine.run ⟨⟨Table.empty, []⟩, []⟩ savedOver).world.runs order := by
  intro all
  have sent : tradeOrder sampleConfig (newRun sampleConfig "run" 0) .buy none (some (.ofNat 10)) none ∈
      (processes.machine.run ⟨⟨Table.empty, []⟩, []⟩ savedOver).world.orders := by decide +kernel
  have recorded : ((processes.machine.run ⟨⟨Table.empty, []⟩, []⟩ savedOver).world.runs.find "run").map
      (·.json) = some (.run { newRun sampleConfig "run" 0 with executionMode := .dryRun }) := by
    decide +kernel
  obtain ⟨record, state, found, json, -, -, mode⟩ := all _ sent
  have here : (processes.machine.run ⟨⟨Table.empty, []⟩, []⟩ savedOver).world.runs.find "run" =
      some record := found
  rw [here, Option.map_some, json] at recorded
  cases recorded
  cases mode

end QuantForge.Cli
