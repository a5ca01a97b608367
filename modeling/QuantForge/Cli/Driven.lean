import QuantForge.Cli.Wrote

namespace QuantForge.Cli

open Live Storage

variable {σ : Type}

section Follows

/-- The runs of `w` are still in `v`, under the identity they had, or adopted. -/
def Follows (w v : Shared) : Prop :=
  ∀ runId record, w.runs.find runId = some record → ∃ next, v.runs.find runId = some next ∧
    (next.identity = record.identity ∨
      record.identity.identitySource = IdentitySource.legacy.asStr ∧
        ∃ identity, identity.source = .adopted ∧ next.identity = identityColumns identity)

theorem Follows.refl (w : Shared) : Follows w w := fun _ record h => ⟨record, h, .inl rfl⟩

theorem adopted_not_legacy {identity : RunIdentity} (h : identity.source = .adopted) :
    (identityColumns identity).identitySource ≠ IdentitySource.legacy.asStr := by
  intro legacy
  have source : identity.source.asStr = IdentitySource.legacy.asStr := legacy
  rw [h] at source
  exact absurd source (by decide)

/-- An adopted identity is not adopted again. -/
theorem Follows.trans {u v w : Shared} (h : Follows u v) (h' : Follows v w) : Follows u w := by
  intro runId record hrecord
  obtain ⟨second, hsecond, change⟩ := h runId record hrecord
  obtain ⟨third, hthird, change'⟩ := h' runId second hsecond
  refine ⟨third, hthird, ?_⟩
  rcases change' with same | ⟨legacy, identity, adopted, written⟩
  · rw [same]
    exact change
  · rcases change with same | ⟨-, other, adoptedBefore, writtenBefore⟩
    · rw [same] at legacy
      exact .inr ⟨legacy, identity, adopted, written⟩
    · rw [writtenBefore] at legacy
      exact absurd legacy (adopted_not_legacy adoptedBefore)

theorem wrote_follows {choice : Choice} {w v : Shared} {p : Process σ} (h : Wrote choice w p v) :
    Follows w v := by
  cases h with
  | nothing => exact .refl w
  | sends => exact .refl w
  | @creates state identity runs hruns =>
    obtain ⟨-, fresh, rfl⟩ := RunRecords.createRun_ok hruns
    intro runId record hrecord
    rcases w.runs.find_put_or ⟨state.runId, state.market, state.strategyName, .run state,
      state.startedAtMs, state.updatedAtMs, identityColumns identity⟩ runId with
      ⟨rfl, -⟩ | ⟨-, kept⟩
    · rw [fresh] at hrecord
      cases hrecord
    · exact ⟨record, by rw [kept, hrecord], .inl rfl⟩
  | @saves state runs _ hruns =>
    obtain ⟨old, hold, rfl⟩ := RunRecords.saveRunState_ok hruns
    intro runId record hrecord
    rcases w.runs.find_put_or { old with json := .run state, updatedAtMs := state.updatedAtMs } runId
      with ⟨rfl, put⟩ | ⟨-, kept⟩
    · rw [← RunRecords.find_runId hold] at hold
      obtain rfl := Option.some.inj (hold.symm.trans hrecord)
      exact ⟨_, put, .inl rfl⟩
    · exact ⟨record, by rw [kept, hrecord], .inl rfl⟩
  | @adopts adopted identity mode runs hruns =>
    obtain ⟨source, old, state, hold, legacy, -, rfl⟩ := RunRecords.adoptRun_ok hruns
    intro runId record hrecord
    rcases w.runs.find_put_or { old with json := .run state, identity := identityColumns identity }
      runId with ⟨rfl, put⟩ | ⟨-, kept⟩
    · rw [← RunRecords.find_runId hold] at hold
      obtain rfl := Option.some.inj (hold.symm.trans hrecord)
      exact ⟨_, put, .inr ⟨legacy, identity, source, rfl⟩⟩
    · exact ⟨record, by rw [kept, hrecord], .inl rfl⟩

end Follows

section Sound

/-- A record's state is of the run it is recorded for. -/
def OfRun (runId : String) (json : StateJson) : Prop :=
  ∀ state, json = .run state ∨ json = .unmoded state → state.runId = runId

/-- Every run is recorded under an identity. -/
def Sound (runs : RunRecords) : Prop :=
  ∀ runId record, runs.find runId = some record →
    (∃ identity, record.identity = identityColumns identity) ∧ OfRun runId record.json

/-- Writing a row keeps the runs recorded under an identity. -/
theorem sound_put {runs : RunRecords} {record : RunRecord} (h : Sound runs)
    (identified : ∃ identity, record.identity = identityColumns identity)
    (ofRun : OfRun record.runId record.json) : Sound (runs.put record) := by
  intro runId other hother
  rcases runs.find_put_or record runId with ⟨rfl, put⟩ | ⟨-, kept⟩
  · obtain rfl := Option.some.inj (put.symm.trans hother)
    exact ⟨identified, ofRun⟩
  · rw [kept] at hother
    exact h runId other hother

theorem ofRun_run {runId : String} {state : BotRunState} (h : state.runId = runId) :
    OfRun runId (.run state) := by
  rintro other (same | same)
  · cases same
    exact h
  · cases same

theorem wrote_sound {choice : Choice} {w v : Shared} {p : Process σ} (h : Wrote choice w p v)
    (hw : Sound w.runs) : Sound v.runs := by
  cases h with
  | nothing => exact hw
  | sends => exact hw
  | @creates state identity runs hruns =>
    obtain ⟨-, -, rfl⟩ := RunRecords.createRun_ok hruns
    exact sound_put hw ⟨identity, rfl⟩ (ofRun_run rfl)
  | @saves state runs _ hruns =>
    obtain ⟨old, hold, rfl⟩ := RunRecords.saveRunState_ok hruns
    exact sound_put hw (hw _ old hold).1 (ofRun_run (RunRecords.find_runId hold).symm)
  | @adopts adopted identity mode runs hruns =>
    obtain ⟨-, old, state, hold, -, from_, rfl⟩ := RunRecords.adoptRun_ok hruns
    have ofRun := (hw _ old hold).2
    refine sound_put hw ⟨identity, rfl⟩ (ofRun_run ?_)
    rw [RunRecords.find_runId hold]
    rcases from_ with run | ⟨before, stated, unmoded, rfl⟩
    · exact ofRun state (.inl run)
    · exact ofRun before (.inr unmoded)

end Sound

section Matched

/-- A run is recorded under the environment and account of `current`, and not as
legacy. -/
def Matched (runs : RunRecords) (runId : String) (current : RunIdentity) : Prop :=
  ∃ record recorded, runs.find runId = some record ∧ record.identity = identityColumns recorded ∧
    recorded.source ≠ .legacy ∧ recorded.environment = current.environment ∧
    recorded.account = current.account

theorem legacy_columns {identity : RunIdentity}
    (h : (identityColumns identity).identitySource = IdentitySource.legacy.asStr) :
    identity.source = .legacy := by
  have same : identity.source.asStr = IdentitySource.legacy.asStr := h
  have read := IdentitySource.fromStr_asStr identity.source
  rw [same, IdentitySource.fromStr_asStr] at read
  exact (Except.ok.inj read).symm

/-- A run once matched stays so. -/
theorem Follows.matched {w v : Shared} {runId : String} {current : RunIdentity} (h : Follows w v)
    (matched : Matched w.runs runId current) : Matched v.runs runId current := by
  obtain ⟨record, recorded, hrecord, written, notLegacy, same⟩ := matched
  obtain ⟨next, hnext, change⟩ := h runId record hrecord
  rcases change with kept | ⟨legacy, -⟩
  · exact ⟨next, recorded, hnext, kept.trans written, notLegacy, same⟩
  · rw [written] at legacy
    exact absurd (legacy_columns legacy) notLegacy

theorem matches_ok {recorded current : RunIdentity} (h : recorded.matches_ current = .ok ()) :
    recorded.source ≠ .legacy ∧ recorded.environment = current.environment ∧
      recorded.account = current.account := by
  unfold RunIdentity.matches_ at h
  split_ifs at h with legacy environment account
  exact ⟨legacy, not_not.mp environment, not_not.mp account⟩

/-- An identity that is read and matches is the one recorded. -/
theorem matched_of_read {runs : RunRecords} {runId : String} {recorded current : RunIdentity}
    (sound : Sound runs) (read : runs.runIdentity runId = .ok (some recorded))
    (h : recorded.matches_ current = .ok ()) : Matched runs runId current := by
  unfold RunRecords.runIdentity at read
  cases hrecord : runs.find runId with
  | none =>
    rw [hrecord] at read
    cases read
  | some record =>
    obtain ⟨identity, written⟩ := (sound runId record hrecord).1
    simp only [hrecord, written, identityFromColumns_identityColumns] at read
    obtain rfl := Option.some.inj (Except.ok.inj read)
    exact ⟨record, identity, hrecord, written, matches_ok h⟩

end Matched

section Own

/-- A state of the exchange, symbol and mode of a session's config. -/
def Fits (cfg : LiveTradeConfig σ) (runState : BotRunState) : Prop :=
  runState.market.exchange = cfg.market.exchange ∧ runState.market.symbol = cfg.market.symbol ∧
    runState.executionMode = cfg.executionMode

/-- A close that has credentials, of a run of its exchange and symbol. -/
def Closes (ctx : AppContext) (args : TradeCloseArgs) (runState : BotRunState) : Prop :=
  ctx.signed = true ∧ checkRun (market ctx args) runState = .ok ()

/-- What a process knows by how far it has come. -/
def Own (runs : RunRecords) : Process σ → Prop
  | .creating cfg _ => requireAccountForLive cfg = .ok ()
  | .resuming cfg runId existing =>
    requireAccountForLive cfg = .ok () ∧ Fits cfg existing ∧ existing.runId = runId
  | .driving cfg runState =>
    requireAccountForLive cfg = .ok () ∧ Fits cfg runState ∧ Matched runs runState.runId cfg.identity
  | .identifying ctx args runState => Closes ctx args runState
  | .closing ctx args runState =>
    Closes ctx args runState ∧ Matched runs runState.runId (ctx.runIdentity .live)
  | _ => True

/-- An order sent in live mode, with an account, for a run recorded under its
identity. -/
structure Driven (runs : RunRecords) (order : RunOrder) : Prop where
  live : order.mode = .live
  account : order.identity.account.isSome = true
  matched : Matched runs order.runId order.identity

theorem Follows.own {w v : Shared} {p : Process σ} (h : Follows w v) (own : Own w.runs p) :
    Own v.runs p := by
  cases p with
  | driving cfg runState => exact ⟨own.1, own.2.1, h.matched own.2.2⟩
  | closing ctx args runState => exact ⟨own.1, h.matched own.2⟩
  | _ => exact own

theorem account_of_live {cfg : LiveTradeConfig σ} (h : requireAccountForLive cfg = .ok ())
    (live : cfg.executionMode = .live) : cfg.identity.account.isSome = true := by
  unfold requireAccountForLive at h
  split_ifs at h with missing
  rw [not_and] at missing
  exact Option.isSome_iff_ne_none.mpr (missing live)

theorem account_of_signed {ctx : AppContext} (h : ctx.signed = true) :
    (ctx.runIdentity .live).account.isSome = true := by
  simpa [AppContext.runIdentity, RunIdentity.recorded, AppContext.signed] using h

theorem fits_of_checks {existing : BotRunState} {cfg : LiveTradeConfig σ}
    (h : applyResumeChecks existing cfg = .ok ()) : Fits cfg existing := by
  unfold applyResumeChecks at h
  split_ifs at h with market name config mode
  rw [not_not] at market mode
  exact ⟨by rw [market], by rw [market], mode⟩

/-- The orders of a process are driven as recorded. -/
theorem driven_of_sends {runs : RunRecords} {order : RunOrder} {p : Process σ} (own : Own runs p)
    (h : Sends order p) : Driven runs order := by
  cases p with
  | driving cfg runState =>
    obtain ⟨live, runId, -, -, mode, identity⟩ := h
    refine ⟨mode, ?_, ?_⟩
    · rw [identity]
      exact account_of_live own.1 live
    · rw [runId, identity]
      exact own.2.2
  | closing ctx args runState =>
    obtain ⟨runId, -, -, mode, identity⟩ := h
    refine ⟨mode, ?_, ?_⟩
    · rw [identity]
      exact account_of_signed own.1.1
    · rw [runId, identity]
      exact own.2
  | _ => exact h.elim

/-- The runs are sound, and the orders were sent for them as they are recorded. -/
def Lawful (w : Shared) : Prop := Sound w.runs ∧ ∀ order ∈ w.orders, Driven w.runs order

theorem wrote_lawful {choice : Choice} {w v : Shared} {p : Process σ} (h : Wrote choice w p v)
    (own : Own w.runs p) (hw : Lawful w) : Lawful v := by
  have follows := wrote_follows h
  have kept (order : RunOrder) (old : order ∈ w.orders) : Driven v.runs order := by
    have driven := hw.2 order old
    exact ⟨driven.live, driven.account, follows.matched driven.matched⟩
  refine ⟨wrote_sound h hw.1, ?_⟩
  cases h with
  | @sends order sent =>
    intro other hother
    rcases List.mem_append.mp hother with old | last
    · exact kept other old
    · rw [List.mem_singleton.mp last]
      exact driven_of_sends own sent
  | _ => exact kept

theorem startTrade_own {cfg : LiveTradeConfig σ} {uuid : String} {runs : RunRecords}
    (sound : Sound runs) : Own runs (startTrade cfg uuid runs) := by
  fun_cases startTrade cfg uuid runs with
  | case1 => trivial
  | case2 accounted => exact accounted
  | case3 => trivial
  | case4 accounted => exact accounted
  | case5 => trivial
  | case6 accounted runId _ existing loaded checked =>
    obtain ⟨record, hrecord, json⟩ := RunRecords.loadRunState_ok loaded
    exact ⟨accounted, fits_of_checks checked, (sound runId record hrecord).2 existing (.inl json)⟩

theorem resumeTrade_own {cfg : LiveTradeConfig σ} {runId : String} {existing : BotRunState}
    {runs : RunRecords} (sound : Sound runs) (own : Own runs (.resuming cfg runId existing)) :
    Own runs (resumeTrade cfg runId existing runs) := by
  obtain ⟨accounted, fits, rfl⟩ := own
  unfold resumeTrade
  split
  · next recorded read =>
    split
    · next checked =>
      exact ⟨accounted, fits, matched_of_read sound read (mapError_ok.mp checked)⟩
    · trivial
  · trivial

/-- A created run is recorded under the identity it was created with. -/
theorem matched_created {runs next : RunRecords} {state : BotRunState} {identity : RunIdentity}
    (h : runs.createRun state identity = .ok next) : Matched next state.runId identity := by
  obtain ⟨notLegacy, -, rfl⟩ := RunRecords.createRun_ok h
  exact ⟨_, identity, Table.find_put _ _, rfl, notLegacy, rfl, rfl⟩

theorem createTrade_own {cfg : LiveTradeConfig σ} {runId : String} {nowMs : Int64}
    {outcome : WriteOutcome} {w : Shared} (own : Own w.runs (.creating cfg runId)) :
    Own (createTrade cfg runId nowMs outcome w).1.runs (createTrade cfg runId nowMs outcome w).2 := by
  unfold createTrade
  cases hnext : w.runs.createRun (newRun cfg runId nowMs) cfg.identity with
  | error error => trivial
  | ok runs =>
    cases outcome with
    | failed error effect => trivial
    | done => exact ⟨own, ⟨rfl, rfl, rfl⟩, matched_created hnext⟩

theorem startClose_own {ctx : AppContext} {args : TradeCloseArgs} {runs : RunRecords} :
    Own runs (startClose ctx args runs : Process σ) := by
  unfold startClose
  split_ifs with signed
  · split
    · split
      · next checked => exact ⟨signed, checked⟩
      · trivial
    · trivial
  · trivial

theorem identifyClose_own {ctx : AppContext} {args : TradeCloseArgs} {runState : BotRunState}
    {runs : RunRecords} (sound : Sound runs) (own : Closes ctx args runState) :
    Own runs (identifyClose ctx args runState runs : Process σ) := by
  unfold identifyClose
  split
  · next recorded read =>
    split
    · next checked =>
      cases recorded with
      | none => cases checked
      | some recorded => exact ⟨own, matched_of_read sound read (mapError_ok.mp checked)⟩
    · trivial
  · trivial

variable [DecimalMath]

/-- What a process knows after its step. -/
theorem step_own {choice : Choice} {w v : Shared} {p q : Process σ} (sound : Sound w.runs)
    (own : Own w.runs p) (h : step choice w p = some (v, q)) : Own v.runs q := by
  have follows := wrote_follows (step_wrote h)
  revert h
  fun_cases step choice w p with
  | case5 cfg uuid =>
    intro h
    obtain ⟨rfl, rfl⟩ := Prod.mk.inj (Option.some.inj h)
    exact startTrade_own sound
  | case6 cfg runId nowMs outcome =>
    intro h
    have made := @createTrade_own _ _ _ nowMs outcome _ own
    rw [Option.some.inj h] at made
    exact made
  | case7 cfg runId existing uuid =>
    intro h
    obtain ⟨rfl, rfl⟩ := Prod.mk.inj (Option.some.inj h)
    exact resumeTrade_own sound own
  | case9 cfg runState =>
    intro h
    obtain ⟨rfl, rfl⟩ := Prod.mk.inj (Option.some.inj h)
    exact own
  | case10 cfg runState progress outcome =>
    intro h
    obtain ⟨rfl, rfl⟩ := Prod.mk.inj (Option.some.inj h)
    exact ⟨own.1, own.2.1, follows.matched own.2.2⟩
  | case11 ctx args uuid =>
    intro h
    obtain ⟨rfl, rfl⟩ := Prod.mk.inj (Option.some.inj h)
    exact startClose_own
  | case12 ctx args runState uuid =>
    intro h
    obtain ⟨rfl, rfl⟩ := Prod.mk.inj (Option.some.inj h)
    exact identifyClose_own sound own
  | case8 => intro h; cases h
  | case17 => intro h; cases h
  | _ =>
    intro h
    obtain ⟨-, rfl⟩ := Prod.mk.inj (Option.some.inj h)
    trivial

/-- Every process keeps the store lawful, and disturbs nothing another knows. -/
theorem processes_keep :
    (processes : Crowd Shared (Process σ) (Invocation σ) Choice).Keeps Lawful
      (fun w _ p => Own w.runs p) fun _ _ _ _ => True where
  enters _ _ _ := trivial
  own hw hp _ hstep := ⟨wrote_lawful (step_wrote hstep) hp hw, step_own hw.1 hp hstep⟩
  others _ _ _ hstep _ hr := (wrote_follows (step_wrote hstep)).own hr

end Own

end QuantForge.Cli
