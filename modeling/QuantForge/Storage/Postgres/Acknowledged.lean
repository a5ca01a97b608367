import QuantForge.Storage.Postgres.Settled
import QuantForge.Storage.Postgres.Writes
import QuantForge.Storage.Retry

namespace QuantForge.Postgres

open Remote
open Refresh (Packed Written)

abbrev Made := Done Statement Statement.Answer

def anyRow (count : Nat) : Bool := count != 0

/-- Whether a statement changed a row. -/
def changesRows : (q : Statement) → q.Answer → Bool
  | .create _ _ _ _, n => anyRow n
  | .save _ _, n => anyRow n
  | .appendEvent _ _ _, n => anyRow n
  | .appendTrade _ _, n => anyRow n
  | .upsert _ _, rows => !List.isEmpty rows
  | .mark _ _, n => anyRow n
  | .lockMark _ _, _ => false
  | .store _ _ _, n => anyRow n
  | .index _ _ _ _ _ _, n => anyRow n
  | .unindex _ _, n => anyRow n
  | .unmark _, n => anyRow n

/-- A transaction that changed a row. -/
def changes (txn : List Made) : Bool := txn.any fun made => changesRows made.q made.answer

namespace WriteCall

/-- What a refresh's write does to its window, between the mark's lock and its deletion. -/
def packedStatements (market : MarketId) (windowStart : Int64) : Packed → List Statement
  | .write hash payloadLen stored firstOpenMs lastOpenMs barCount =>
    [.store hash payloadLen stored, .index market windowStart firstOpenMs lastOpenMs barCount hash]
  | .keep => []
  | .clear => [.unindex market windowStart]

/-- A reply that says that nothing was written. -/
def Unmade : (call : WriteCall) → call.Reply → Prop
  | .upsertCandles _ candles, r => candles = [] ∧ r = (0 : Nat)
  | .writeWindow _ _ _ _, r => r = Written.elsewhere ∨ r = Written.marked
  | _, _ => False

/-- A reply, and the one transaction that made what it says. -/
def Makes : (call : WriteCall) → call.Reply → List Made → Prop
  | .createRun state identity stateJson nowUtcMs, _, txn => ∃ json n, stateJson = .ok json ∧
      txn = [⟨.create state json (Storage.identityColumns identity) nowUtcMs, n⟩]
  | .saveRunState state stateJson, _, txn => ∃ (json : String) (n : Nat), stateJson = .ok json ∧
      n ≠ 0 ∧ txn = [⟨.save state json, n⟩]
  | .appendOrderEvent runId order rawJson, _, txn => ∃ json n, rawJson = .ok json ∧
      txn = [⟨.appendEvent runId order json, n⟩]
  | .appendClosedTrade runId trade, _, txn => ∃ n, txn = [⟨.appendTrade runId trade, n⟩]
  | .upsertCandles market candles, r, txn => r = candles.length ∧ ∃ batch rows windows,
      Batch.of market.interval candles = .ok batch ∧
      batch.windowsOf batch.forced rows = .ok windows ∧
      (windows.rows = [] ∧ txn = [⟨.upsert market (batch.rows.rows.map (·.candle)), rows⟩] ∨
        windows.rows ≠ [] ∧ ∃ n, txn = [⟨.upsert market (batch.rows.rows.map (·.candle)), rows⟩,
          ⟨.mark market windows.rows, n⟩])
  | .writeWindow market windowStart id packed, r, txn => r = Written.done ∧
      txn.head? = some ⟨.lockMark market windowStart, some (.ok id)⟩ ∧
      txn.map (·.q) = .lockMark market windowStart :: packedStatements market windowStart packed ++
        [.unmark id]

/-- An answer of a call, and the transactions it committed: a reply says what was made, once, or
that nothing was; an error with a known outcome says that no row was changed. -/
def Honest (call : WriteCall) (ledger : List (List Made)) : Except CallError call.Reply → Prop
  | .ok r => call.Unmade r ∧ ledger = [] ∨ ∃ txn, call.Makes r txn ∧ ledger = [txn]
  | .error e => e.kind ≠ .outcomeUnknown → ∀ txn ∈ ledger, changes txn = false

/-- What a call under a fault schedule has come to: its answer, once it has one, and the
transactions that it committed. -/
structure Outcome (R : Type) where
  answer : Option (Except CallError R)
  ledger : List (List Made)

/-- The answer inside what the bridge answers. -/
def joined {R : Type} : Except CallError (Except CallError R) → Except CallError R
  | .ok answer => answer
  | .error e => .error e

/-- A write call through a bridge, under a fault schedule. -/
def run (call : WriteCall) (b : Bridge) (choices : List (Choice Statement Statement.Answer)) :
    Outcome call.Reply :=
  match call.plan with
  | .answers answer => ⟨some answer, []⟩
  | .executes work =>
    let c := (b.execute .write work).run Call.made choices
    ⟨c.answer.map joined, c.session.ledger⟩

/-- What the work of a call says nothing was committed with, and what was. -/
def refused (call : WriteCall) : Except CallError call.Reply → Prop
  | .ok r => call.Unmade r
  | .error _ => True

def did (call : WriteCall) : Except CallError call.Reply → List Made → Prop
  | .ok r, txn => call.Makes r txn
  | .error _, txn => changes txn = false

/-- What the answers of a call's work say. -/
abbrev meaning (call : WriteCall) :
    Meaning Statement Statement.Answer DriverError (Except CallError call.Reply) :=
  writeMeaning call.refused call.did

end WriteCall

section

variable {T : Type} {M : Meaning Statement Statement.Answer DriverError T}

theorem transaction_disciplined {body : WriteWork T} (h : M.Disciplined body (.inside [])) :
    M.Disciplined (inTransaction body) .outside := ⟨h, fun _ => rfl⟩

theorem inside_disciplined {q : Statement} {next : q.Answer → WriteWork T} {done : List Made}
    (h : ∀ a, M.Disciplined (next a) (.inside (done ++ [⟨q, a⟩]))) :
    M.Disciplined (inside q next) (.inside done) := ⟨h, fun _ => rfl⟩

theorem commit_disciplined {t : T} {done : List Made} (h : M.did t done) :
    M.Disciplined (commit t) (.inside done) := ⟨h, fun _ => rfl⟩

end

theorem create_disciplined {state : BotRunState} {identity : RunIdentity}
    {stateJson : Except String String} {json : String} {nowUtcMs : Int64}
    (h : stateJson = .ok json) :
    (WriteCall.meaning (WriteCall.createRun state identity stateJson nowUtcMs)).Disciplined
      ((createWork state json (Storage.identityColumns identity) nowUtcMs).map fun created =>
          if created then .ok () else .error (.storage (RunTable.alreadyExists state.runId)))
        .outside := by
  apply map_disciplined
  constructor
  · intro n
    exact ⟨json, n, h, rfl⟩
  · intro x
    dsimp only
    by_cases hunique : x.code = some uniqueViolation
    · rw [if_pos hunique]
      refine ⟨trivial, ?_⟩
      show DriverError.undecided x = false
      unfold DriverError.undecided
      rw [hunique]
      rfl
    · rw [if_neg hunique]
      rfl

theorem save_disciplined {state : BotRunState} {stateJson : Except String String} {json : String}
    (h : stateJson = .ok json) :
    (WriteCall.meaning (WriteCall.saveRunState state stateJson)).Disciplined
      ((saveWork state json).map fun updated =>
          if updated = 0 then .error (.storage (RunTable.neverCreated state.runId)) else .ok ())
        .outside := by
  apply map_disciplined
  refine ⟨fun (n : Nat) => ?_, fun x => rfl⟩
  show (WriteCall.saveRunState state stateJson).did (if n = 0 then _ else _) _
  by_cases hnone : n = 0
  · rw [if_pos hnone, hnone]
    rfl
  · rw [if_neg hnone]
    exact ⟨json, n, h, hnone, rfl⟩

theorem event_disciplined {runId : String} {order : ExchangeOrder}
    {rawJson : Except String String} {json : String} (h : rawJson = .ok json) :
    (WriteCall.meaning (WriteCall.appendOrderEvent runId order rawJson)).Disciplined
      ((appendEventWork runId order json).map .ok) .outside := by
  apply map_disciplined
  exact ⟨fun n => ⟨json, n, h, rfl⟩, fun x => rfl⟩

theorem trade_disciplined (runId : String) (trade : ClosedTrade) :
    (WriteCall.meaning (WriteCall.appendClosedTrade runId trade)).Disciplined
      ((appendTradeWork runId trade).map .ok) .outside := by
  apply map_disciplined
  exact ⟨fun n => ⟨n, rfl⟩, fun x => rfl⟩

theorem upsert_disciplined {market : MarketId} {candles : List Candle} {batch : Batch}
    (h : Batch.of market.interval candles = .ok batch) :
    (WriteCall.meaning (.upsertCandles market candles)).Disciplined
      ((upsertWork market batch).map (WriteCall.upserted candles)) .outside := by
  apply map_disciplined
  apply transaction_disciplined
  apply inside_disciplined
  intro rows
  cases hwindows : batch.windowsOf batch.forced rows with
  | error e => cases e <;> trivial
  | ok windows =>
    dsimp only
    by_cases hempty : windows.rows.isEmpty = true
    · rw [if_pos hempty]
      apply commit_disciplined
      exact ⟨rfl, batch, rows, windows, h, hwindows, .inl ⟨List.isEmpty_iff.mp hempty, rfl⟩⟩
    · rw [if_neg hempty]
      apply inside_disciplined
      intro n
      apply commit_disciplined
      exact ⟨rfl, batch, rows, windows, h, hwindows,
        .inr ⟨fun hnil => hempty (List.isEmpty_iff.mpr hnil), n, rfl⟩⟩

theorem window_disciplined (market : MarketId) (windowStart : Int64) (id : Nat) (packed : Packed) :
    (WriteCall.meaning (.writeWindow market windowStart id packed)).Disciplined
      ((writeWindowWork market windowStart id packed).map .ok) .outside := by
  apply map_disciplined
  apply transaction_disciplined
  apply inside_disciplined
  intro found
  cases found with
  | none => exact .inl rfl
  | some read =>
    cases read with
    | error e => trivial
    | ok current =>
      dsimp only
      by_cases hother : current ≠ id
      · rw [if_pos hother]
        exact .inr rfl
      · rw [if_neg hother, not_not.mp hother]
        cases packed with
        | keep =>
          apply inside_disciplined
          intro unmarked
          apply commit_disciplined
          exact ⟨rfl, rfl, rfl⟩
        | clear =>
          apply inside_disciplined
          intro unindexed
          apply inside_disciplined
          intro unmarked
          apply commit_disciplined
          exact ⟨rfl, rfl, rfl⟩
        | write hash payloadLen stored firstOpenMs lastOpenMs barCount =>
          apply inside_disciplined
          intro stored
          apply inside_disciplined
          intro indexed
          apply inside_disciplined
          intro unmarked
          apply commit_disciplined
          exact ⟨rfl, rfl, rfl⟩

/-- The work of every call is disciplined: it makes one transaction at most, and answers what is
so. -/
theorem plan_disciplined (call : WriteCall) {work : WriteWork (Except CallError call.Reply)}
    (h : call.plan = .executes work) : call.meaning.Disciplined work .outside := by
  cases call with
  | createRun state identity stateJson nowUtcMs =>
    unfold WriteCall.plan WriteCall.printed at h
    dsimp only at h
    by_cases hlegacy : identity.source = .legacy
    · rw [if_pos hlegacy] at h
      cases h
    · rw [if_neg hlegacy] at h
      cases hjson : stateJson with
      | error e =>
        rw [hjson] at h
        cases h
      | ok json =>
        rw [hjson] at h
        cases h
        exact create_disciplined rfl
  | saveRunState state stateJson =>
    cases hjson : stateJson with
    | error e =>
      rw [hjson] at h
      cases h
    | ok json =>
      rw [hjson] at h
      cases h
      exact save_disciplined rfl
  | appendOrderEvent runId order rawJson =>
    cases hjson : rawJson with
    | error e =>
      rw [hjson] at h
      cases h
    | ok json =>
      rw [hjson] at h
      cases h
      exact event_disciplined rfl
  | appendClosedTrade runId trade =>
    cases h
    exact trade_disciplined runId trade
  | upsertCandles market candles =>
    unfold WriteCall.plan at h
    dsimp only at h
    by_cases hempty : candles.isEmpty = true
    · rw [if_pos hempty] at h
      cases h
    · rw [if_neg hempty] at h
      cases hbatch : Batch.of market.interval candles with
      | error e =>
        rw [hbatch] at h
        cases h
      | ok batch =>
        rw [hbatch] at h
        cases h
        exact upsert_disciplined hbatch
  | writeWindow market windowStart id packed =>
    cases h
    exact window_disciplined market windowStart id packed

section

variable {Q T : Type} {A : Q → Type} {b : Bridge} {work : Work Q A DriverError T}

/-- A call whose job was not handed over has no answer. -/
def Unspawned (c : Call Q A T) : Prop := c.stage = .calling → c.answer = none

theorem proceed_spawned (c : Call Q A T) (w : Work Q A DriverError T) :
    (c.proceed b .write w).stage ≠ .calling := by
  unfold Call.proceed
  dsimp only
  cases w.result with
  | none => nofun
  | some result =>
    dsimp only
    by_cases bounded : b.bounded = true
    · rw [if_pos bounded]
      nofun
    · rw [if_neg bounded]
      nofun

theorem overdue_answer {c d : Call Q A T} (h : c.overdue b .write = some d) :
    d.stage ≠ .calling ∧ d.answer = c.answer := by
  unfold Call.overdue at h
  cases stage : c.stage <;> rw [stage] at h <;> cases h <;> exact ⟨nofun, rfl⟩

/-- A caller that was answered stays answered so. -/
theorem step_answer {c d : Call Q A T} {choice : Choice Q A} (unspawned : Unspawned c)
    (h : c.step b .write work choice = some d) :
    Unspawned d ∧ ∀ a, c.answer = some a → d.answer = some a := by
  have spawned {d : Call Q A T} (away : d.stage ≠ .calling) (same : d.answer = c.answer) :
      Unspawned d ∧ ∀ a, c.answer = some a → d.answer = some a :=
    ⟨fun stage => absurd stage away, fun a given => same.trans given⟩
  have kept {d : Call Q A T} (stage : d.stage = c.stage) (same : d.answer = c.answer) :
      Unspawned d ∧ ∀ a, c.answer = some a → d.answer = some a :=
    ⟨fun calling => same.trans (unspawned (stage.symm.trans calling)), fun a given => same.trans given⟩
  have first {d : Call Q A T} (away : d.stage ≠ .calling) (none : c.answer = none) :
      Unspawned d ∧ ∀ a, c.answer = some a → d.answer = some a := by
    refine ⟨fun stage => absurd stage away, fun a given => ?_⟩
    rw [none] at given
    cases given
  revert h
  fun_cases Call.step b .write work c choice with
  | case3 stage | case5 builtBy calledFrom stage =>
    intro h
    cases h
    exact first (fun away => by cases away) (unspawned stage)
  | case8 | case12 | case18 | case20 =>
    intro h
    cases h
    exact spawned (proceed_spawned _ _) (proceed_answer _ _)
  | case17 verdict session executed elsewhere =>
    intro h
    cases h
    exact kept rfl rfl
  | case24 =>
    intro h
    obtain ⟨away, same⟩ := overdue_answer h
    exact spawned away same
  | case25 | case26 =>
    intro h
    cases h
    exact kept rfl rfl
  | case27 answer none stage =>
    intro h
    cases h
    exact first (fun away => by cases away) none
  | case22 done result stage discarded =>
    intro h
    cases h
    cases done with
    | false => exact spawned (fun away => by cases away) rfl
    | true => exact spawned (fun away => by cases away) rfl
  | case1 | case7 | case10 | case13 | case16 | case36 =>
    intro h
    cases h
    exact spawned (fun away => by cases away) rfl
  | case31 unanswered running | case34 unanswered running =>
    intro h
    cases h
    exact first running unanswered
  | _ =>
    intro h
    cases h

/-- An answer stays what it is, however the call goes on. -/
theorem run_answer (choices later : List (Choice Q A)) {a : Except CallError T}
    (given : ((b.execute .write work).run Call.made choices).answer = some a) :
    ((b.execute .write work).run Call.made (choices ++ later)).answer = some a := by
  have unspawned : Unspawned ((b.execute .write work).run Call.made choices) := by
    apply Machine.run_keeps
    · exact fun _ => rfl
    · intro c choice before
      simp only [Machine.next, Bridge.execute]
      cases h : c.step b .write work choice with
      | none => exact before
      | some d => exact (step_answer before h).1
  rw [Machine.run_append]
  apply And.right (a := Unspawned _)
  apply (b.execute .write work).run_keeps fun c => Unspawned c ∧ c.answer = some a
  · exact ⟨unspawned, given⟩
  · intro c choice before
    simp only [Machine.next, Bridge.execute]
    cases h : c.step b .write work choice with
    | none => exact before
    | some d =>
      obtain ⟨next, kept⟩ := step_answer before.1 h
      exact ⟨next, kept a before.2⟩

end

namespace WriteCall

/-- A call that answers a reply at once has nothing to write. -/
theorem plan_answers {call : WriteCall} {r : call.Reply} (h : call.plan = .answers (.ok r)) :
    call.Unmade r := by
  cases call with
  | createRun state identity stateJson nowUtcMs =>
    unfold plan printed at h
    dsimp only at h
    by_cases hlegacy : identity.source = .legacy
    · rw [if_pos hlegacy] at h
      cases h
    · rw [if_neg hlegacy] at h
      cases stateJson <;> cases h
  | saveRunState state stateJson => cases stateJson <;> cases h
  | appendOrderEvent runId order rawJson => cases rawJson <;> cases h
  | appendClosedTrade runId trade => cases h
  | upsertCandles market candles =>
    unfold plan at h
    dsimp only at h
    by_cases hempty : candles.isEmpty = true
    · rw [if_pos hempty] at h
      cases h
      exact ⟨List.isEmpty_iff.mp hempty, rfl⟩
    · rw [if_neg hempty] at h
      cases hbatch : Batch.of market.interval candles <;> rw [hbatch] at h <;> cases h
  | writeWindow market windowStart id packed => cases h

variable (call : WriteCall) (b : Bridge)

/-- What a call answers is so, then and however its job goes on. -/
theorem run_honest (choices later : List (Choice Statement Statement.Answer))
    {answer : Except CallError call.Reply} (given : (call.run b choices).answer = some answer) :
    call.Honest (call.run b (choices ++ later)).ledger answer := by
  unfold run at given ⊢
  cases hplan : call.plan with
  | answers known =>
    rw [hplan] at given
    have same : known = answer := Option.some.inj given
    rw [same] at hplan
    cases answer with
    | ok r => exact .inl ⟨plan_answers hplan, rfl⟩
    | error e =>
      intro _ txn hmem
      cases hmem
  | executes work =>
    rw [hplan] at given
    obtain ⟨told, htold, hjoined⟩ := Option.map_eq_some_iff.mp given
    have still := run_answer choices later htold
    obtain ⟨_, onOk, onError⟩ := run_answers (b := b) (plan_disciplined call hplan) (choices ++ later)
    dsimp only
    cases told with
    | ok t =>
      have same : t = answer := hjoined
      rw [same] at still
      cases answer with
      | ok r => exact onOk _ still
      | error e =>
        intro _ txn hmem
        cases onOk _ still with
        | inl none =>
          rw [none.2] at hmem
          cases hmem
        | inr one =>
          obtain ⟨done, unchanged, ledger⟩ := one
          rw [ledger] at hmem
          rw [List.mem_singleton.mp hmem]
          exact unchanged
    | error e =>
      have same : .error e = answer := hjoined
      rw [← same]
      intro known txn hmem
      rw [onError e still known] at hmem
      cases hmem

theorem run_once (choices : List (Choice Statement Statement.Answer)) :
    (call.run b choices).ledger.length ≤ 1 := by
  unfold run
  cases hplan : call.plan with
  | answers known => exact Nat.zero_le 1
  | executes work => exact (run_answers (plan_disciplined call hplan) choices).1

/-- What an attempt meets until its caller has its answer, and after. -/
structure Met where
  choices : List (Choice Statement Statement.Answer)
  later : List (Choice Statement Statement.Answer)

/-- The bridge that an attempt goes through, given how many nanoseconds are left. -/
def attemptBridge (left : Nat) : Bridge := { b with budgetMs := some (left / 1000000) }

/-- `retry_conflicts` around a call, each attempt bounded by what is left of the budget. -/
def retried (deadline : Option Nat) (budget : Nat) (turns : List (Retry.Turn Met)) :
    Retry.Tried Met CallError call.Reply :=
  Retry.retryConflicts (fun e => e.kind = .conflict)
    (fun left met => (call.run (attemptBridge b left) met.choices).answer) deadline budget turns

/-- The transactions of all attempts that changed a row, whenever they were committed. -/
def changesOf (attempts : List (Nat × Met)) : List (List Made) :=
  (attempts.flatMap fun made =>
    (call.run (attemptBridge b made.1) (made.2.choices ++ made.2.later)).ledger).filter changes

/-- An answer after retries, and the transactions that changed a row. -/
def HonestRetried (changed : List (List Made)) : Except CallError call.Reply → Prop
  | .ok r => call.Unmade r ∧ changed = [] ∨ ∃ txn, call.Makes r txn ∧ changed = [txn].filter changes
  | .error e => e.kind ≠ .outcomeUnknown → changed = []

theorem retried_honest {tried : Retry.Tried Met CallError call.Reply}
    (h : Retry.LastDecides (fun e => e.kind = .conflict)
      (fun left met => (call.run (attemptBridge b left) met.choices).answer) tried) :
    (call.changesOf b tried.attempts).length ≤ 1 ∧
      ∀ answer, tried.answer = some answer →
        call.HonestRetried (call.changesOf b tried.attempts) answer := by
  have unchanged {ledger : List (List Made)} (none : ∀ txn ∈ ledger, changes txn = false) :
      ledger.filter changes = [] := by
    rw [List.filter_eq_nil_iff]
    intro txn hmem
    rw [none txn hmem]
    exact Bool.false_ne_true
  induction h with
  | unstarted => exact ⟨Nat.zero_le 1, nofun⟩
  | @last made answer same =>
    have ledger : call.changesOf b [made] =
        (call.run (attemptBridge b made.1) (made.2.choices ++ made.2.later)).ledger.filter changes := by
      rw [changesOf, List.flatMap_cons, List.flatMap_nil, List.append_nil]
    rw [ledger]
    constructor
    · have once := call.run_once (attemptBridge b made.1) (made.2.choices ++ made.2.later)
      have fewer := List.length_filter_le changes
        (call.run (attemptBridge b made.1) (made.2.choices ++ made.2.later)).ledger
      omega
    · intro a given
      have honest := call.run_honest (attemptBridge b made.1) made.2.choices made.2.later (same a given)
      cases a with
      | ok r =>
        cases honest with
        | inl none => exact .inl ⟨none.1, by rw [none.2]; rfl⟩
        | inr one =>
          obtain ⟨txn, makes, only⟩ := one
          exact .inr ⟨txn, makes, by rw [only]⟩
      | error e => exact fun known => unchanged (honest known)
  | @again made e rest lost met later ih =>
    have conflict : e.kind = .conflict := of_decide_eq_true lost
    have known : e.kind ≠ .outcomeUnknown := by
      rw [conflict]
      nofun
    have nothing := call.run_honest (attemptBridge b made.1) made.2.choices made.2.later met known
    have ledger : call.changesOf b (made :: rest.attempts) = call.changesOf b rest.attempts := by
      rw [changesOf, List.flatMap_cons, List.filter_append, unchanged nothing, List.nil_append]
      rfl
    rw [ledger]
    exact ih

/-- No write is acknowledged without its commit, and none is committed behind a definite failure,
now or later; and a call that is made again after a conflict commits once at most. -/
theorem acknowledged :
    (∀ choices later answer, (call.run b choices).answer = some answer →
      call.Honest (call.run b (choices ++ later)).ledger answer) ∧
    (∀ choices, (call.run b choices).ledger.length ≤ 1) ∧
    ∀ deadline budget turns,
      (call.changesOf b (call.retried b deadline budget turns).attempts).length ≤ 1 ∧
        ∀ answer, (call.retried b deadline budget turns).answer = some answer →
          call.HonestRetried (call.changesOf b (call.retried b deadline budget turns).attempts)
            answer := by
  refine ⟨fun choices later answer given => call.run_honest b choices later given,
    fun choices => call.run_once b choices, fun deadline budget turns => ?_⟩
  exact call.retried_honest b (Retry.retryFrom_last budget Retry.firstPause turns)

/-- A refresh that unmarks a window which it packed as it was. -/
def unmarking : WriteCall := .writeWindow ⟨.binanceSpot, .btcUsdt, .m1⟩ 0 7 .keep

instance : DecidableEq unmarking.Reply := inferInstanceAs (DecidableEq Written)

/-- A server that has the mark as the refresh read it, and changes one row. -/
def marked : (q : Statement) → q.Answer
  | .lockMark _ _ => some (.ok (7 : Nat))
  | .upsert _ _ => []
  | .create _ _ _ _ | .save _ _ | .appendEvent _ _ _ | .appendTrade _ _ | .mark _ _
  | .store _ _ _ | .index _ _ _ _ _ _ | .unindex _ _ | .unmark _ => (1 : Nat)

/-- A connection on which the session opens its transaction. -/
def begun : List (Choice Statement Statement.Answer) :=
  [.spawns, .connects, .limits true, .executes (.obeys marked), .hears]

/-- The server rolls the transaction back at its first statement. -/
def rolledBack : Met where
  choices := begun ++
    [.executes (.reports ⟨some "40001", "could not serialize access"⟩ none), .hears, .resets true,
      .replies]
  later := [.rollsBack]

def untilCommit : List (Choice Statement Statement.Answer) :=
  begun ++ [.executes (.obeys marked), .hears, .executes (.obeys marked), .hears]

def committed : Met where
  choices := untilCommit ++ [.executes (.obeys marked), .hears, .resets true, .replies]
  later := []

/-- The commit is made, and its answer lost. -/
def unanswered : Met where
  choices := untilCommit ++
    [.executes (.reports ⟨none, "connection reset by peer"⟩ (some marked)), .hears, .resets true,
      .replies]
  later := []

/-- A window is unmarked once on the second attempt, after a conflict; and where the commit's
answer is lost there, the caller is not told that nothing was written. -/
theorem unmarking_acknowledged :
    let b : Bridge := ⟨5000, none⟩
    let turns (second : Met) : List (Retry.Turn Met) :=
      [⟨rolledBack, 1000000, 12000000⟩, ⟨second, 20000000, 20000000⟩]
    let tried (second : Met) := unmarking.retried b (some 1000000000) 1000000000 (turns second)
    (tried committed).attempts.length = 2 ∧
      (unmarking.changesOf b (tried committed).attempts).length ≤ 1 ∧
      unmarking.HonestRetried (unmarking.changesOf b (tried committed).attempts) (.ok Written.done) ∧
      (tried unanswered).answer = some (.error (.storage
        (.outcomeUnknown "the connection failed: connection reset by peer"))) ∧
      (unmarking.changesOf b (tried unanswered).attempts).length = 1 := by
  intro b turns tried
  have retry := (acknowledged unmarking b).2.2 (some 1000000000) 1000000000 (turns committed)
  have answered : (tried committed).answer = some (.ok Written.done) := by decide +kernel
  exact ⟨by decide +kernel, retry.1, retry.2 _ answered, by decide +kernel, by decide +kernel⟩

end WriteCall

end QuantForge.Postgres
