import QuantForge.Model.Futures.IntentParts
import QuantForge.Model.Futures.ClientOrderIdText

namespace QuantForge.ExternalIntent

/-- Some sequence of operations on a new intent leaves this record. -/
def Reached (s : ExternalIntent) : Prop := ∃ ops, machine.run (new s.kind) ops = s

theorem reached_new (kind : IntentKind) : Reached (new kind) := ⟨[], rfl⟩

theorem Reached.next {s t : ExternalIntent} (h : Reached s) (op : Op)
    (hnext : machine.next s op = t) (hkind : t.kind = s.kind) : Reached t := by
  obtain ⟨ops, hrun⟩ := h
  refine ⟨ops ++ [op], ?_⟩
  rw [hkind, machine.run_snoc, hrun, hnext]

/-- A plain move that needs no evidence. -/
theorem Reached.moveTo {s : ExternalIntent} {dst : IntentState} (h : Reached s)
    (hfree : s.state.gated dst = false) (hmove : s.state.canMoveTo dst = true)
    (hexpires : dst = .expired → s.kind.isExit = false) : Reached { s with state := dst } := by
  have hmoved : s.state.moveTo dst = .ok dst := IntentState.moveTo_ok.mpr ⟨hfree, hmove, rfl⟩
  have hallowed : ¬(dst = .expired ∧ s.kind.isExit = true) := by
    rintro ⟨hdst, hexit⟩
    rw [hexpires hdst] at hexit
    cases hexit
  refine h.next (.moveTo dst) ?_ rfl
  simp only [Machine.next, machine, ExternalIntent.moveTo, if_neg hallowed, hmoved, setState]

/-- The first attempt of an admitted intent. -/
theorem Reached.sent {s : ExternalIntent} {attempt : OrderAttempt} (h : Reached s)
    (hleg : attempt.clientOrderId.leg = s.kind.leg) (hstate : s.state = .admitted)
    (hnone : s.attempts = []) :
    Reached { s with state := .submitting, attempts := [attempt] } := by
  have hexpect : expectLeg attempt.clientOrderId [s.kind.leg] = .ok () :=
    expectLeg_ok.mpr (by simp [hleg])
  refine h.next (.recordAttempt attempt) ?_ rfl
  simp [Machine.next, machine, recordAttempt, hexpect, hstate, hnone, IntentState.moveTo,
    IntentState.gated, IntentState.checked, IntentState.canMoveTo, IntentState.transitions]

/-- A further attempt of an exit whose outcome is open. -/
theorem Reached.retried {s : ExternalIntent} {attempt : OrderAttempt} (h : Reached s)
    (hleg : attempt.clientOrderId.leg = s.kind.leg) (hexit : s.kind.isExit = true)
    (hstate : s.state = .submitting) (hfresh : attempt.clientOrderId ∉ s.sentIds) :
    Reached { s with attempts := s.attempts ++ [attempt] } := by
  have hexpect : expectLeg attempt.clientOrderId [s.kind.leg] = .ok () :=
    expectLeg_ok.mpr (by simp [hleg])
  have hother : ¬ (s.attempts.any fun sent => sent.clientOrderId == attempt.clientOrderId) = true :=
    fun hsent => hfresh (any_sent.mp hsent)
  refine h.next (.recordAttempt attempt) ?_ rfl
  simp only [Machine.next, machine, recordAttempt, hexpect, if_neg hother]
  simp [hstate, hexit, IntentState.isUnresolved]

theorem superseded_latest {s : ExternalIntent} {attempt : OrderAttempt}
    (h : s.attempts.getLast? = some attempt) : s.superseded attempt.clientOrderId = false := by
  simp [superseded, h]

/-- An order the venue could report for an attempt. -/
def orderFor (instrument : InstrumentId) (attempt : OrderAttempt) (status : FuturesOrderStatus)
    (filled : Quantity) : FuturesOrder where
  instrument := instrument
  venueOrderId := ⟨"1", by decide⟩
  clientId := some attempt.clientOrderId.toText
  side := .buy
  reduceOnly := false
  origin := .client
  status := status
  requested := .base ⟨.ofUInt32 1, by decide, by decide⟩
  filled := filled
  averagePrice := none
  source := .query
  updatedAtMs := 0

def noneFilled : Quantity := .base ⟨.zero, by decide, by decide⟩

def oneFilled : Quantity := .base ⟨.ofUInt32 1, by decide, by decide⟩

theorem orderFor_id (instrument : InstrumentId) (attempt : OrderAttempt)
    (status : FuturesOrderStatus) (filled : Quantity) :
    (orderFor instrument attempt status filled).clientOrderId = some attempt.clientOrderId :=
  ClientOrderId.parseOurs_some.mpr
    ⟨attempt.clientOrderId.splitOn_toText, attempt.clientOrderId.toText_utf8ByteSize⟩

theorem owns_latest {s : ExternalIntent} {attempt : OrderAttempt}
    (h : s.attempts.getLast? = some attempt) :
    s.owns (some attempt.clientOrderId) s.kind.key.instrument = true := by
  simp only [owns, Bool.and_eq_true, beq_self_eq_true, and_true]
  exact any_sent.mpr (List.mem_map_of_mem (List.mem_of_getLast? h))

/-- What an order for the latest attempt proves. -/
theorem Reached.order {s : ExternalIntent} {attempt : OrderAttempt} {dst : IntentState}
    (h : Reached s) (status : FuturesOrderStatus) (filled : Quantity)
    (hlatest : s.attempts.getLast? = some attempt)
    (hproves : s.state.onOrder (orderFor s.kind.key.instrument attempt status filled) =
      .ok dst) : Reached { s with state := dst } := by
  refine h.next (.onOrder (orderFor s.kind.key.instrument attempt status filled)) ?_ rfl
  have hinstrument : (orderFor s.kind.key.instrument attempt status filled).instrument =
      s.kind.key.instrument := rfl
  simp only [Machine.next, machine, onOrder, orderFor_id, hinstrument, owns_latest hlatest,
    Option.any_some, superseded_latest hlatest, Bool.and_false, Bool.not_true, Bool.false_eq_true,
    if_false, hproves, setState]

/-- The venue refuses the latest attempt. -/
theorem Reached.rejected {s : ExternalIntent} {attempt : OrderAttempt} (h : Reached s)
    (hlatest : s.attempts.getLast? = some attempt) (hstate : s.state = .submitting) :
    Reached { s with state := .rejected } := by
  have hown : (s.attempts.any fun sent => sent.clientOrderId == attempt.clientOrderId) = true :=
    any_sent.mpr (List.mem_map_of_mem (List.mem_of_getLast? hlatest))
  refine h.next (.onRejection ⟨attempt.clientOrderId, "", ""⟩) ?_ rfl
  simp only [Machine.next, machine, onRejection, hown, superseded_latest hlatest, Bool.not_true,
    Bool.false_eq_true, if_false]
  split_ifs with hmany
  · simp [IntentState.retryRejected, IntentState.checked, hstate, IntentState.canMoveTo,
      IntentState.transitions, setState]
  · simp [IntentState.onRejection, hstate, setState]

/-- The propagation delay after an attempt. -/
def lapsedAt (attempt : OrderAttempt) : TimestampMs :=
  Int64.ofInt (attempt.sentAtMs.toInt + propagationDelayMs.toInt)

/-- A lookup that did not find the attempt, and a flat position. -/
def lookupOf (instrument : InstrumentId) (attempt : OrderAttempt) : NotPlacedEvidence where
  clientOrderId := attempt.clientOrderId
  queriedAtMs := lapsedAt attempt
  guarantee := ⟨true, propagationDelayMs⟩
  position := {
    instrument := instrument
    exposure := none
    notional := none
    leverage := ⟨.ofUInt32 1, by decide, by decide⟩
    marginMode := .isolated
    markPrice := none
    liquidation := .unavailable .reportedZero
    unrealizedPnl := none
    margin := none
    observedAtMs := lapsedAt attempt }

theorem lapsedAt_waited {attempt : OrderAttempt} (h : CanLapse attempt) :
    TimestampMs.saturatingSub (lapsedAt attempt) attempt.sentAtMs = propagationDelayMs := by
  have hlow := attempt.sentAtMs.le_toInt
  have hdelay : propagationDelayMs.toInt = 30000 := by decide
  unfold CanLapse at h
  have hlapsed : (lapsedAt attempt).toInt = attempt.sentAtMs.toInt + propagationDelayMs.toInt := by
    apply Int64.toInt_ofInt_of_le <;> omega
  have hwaited : max (-2 ^ 63) (min (2 ^ 63 - 1)
      ((lapsedAt attempt).toInt - attempt.sentAtMs.toInt)) = propagationDelayMs.toInt := by
    rw [hlapsed]
    omega
  rw [TimestampMs.saturatingSub, hwaited, Int64.ofInt_toInt]

/-- An entry whose outcome is unknown is settled as never placed. -/
theorem Reached.notPlaced {s : ExternalIntent} {attempt : OrderAttempt} (h : Reached s)
    (hentry : s.kind.isExit = false) (hstate : s.state = .outcomeUnknown)
    (hattempts : s.attempts = [attempt]) (hlapse : CanLapse attempt) :
    Reached { s with state := .notPlaced } := by
  refine h.next (.entryNotPlaced (lookupOf s.kind.key.instrument attempt)) ?_ rfl
  have hid : (lookupOf s.kind.key.instrument attempt).clientOrderId = attempt.clientOrderId := rfl
  have hfind : (s.attempts.find? fun a => a.clientOrderId == attempt.clientOrderId) =
      some attempt := by
    rw [hattempts]
    simp
  have hproves : s.provesNotPlaced attempt.sentAtMs (lookupOf s.kind.key.instrument attempt) =
      true := by
    have hwaited := lapsedAt_waited hlapse
    simp [provesNotPlaced, lookupOf, hwaited, PositionSnapshot.isFlat]
  have hsettles : s.state.settleNotPlaced = .ok .notPlaced := by
    rw [hstate]
    rfl
  have hnot : ¬ s.kind.isExit = true := by
    rw [hentry]
    exact Bool.false_ne_true
  show (s.entryNotPlaced (lookupOf s.kind.key.instrument attempt)).2 = _
  rw [entryNotPlaced, if_neg hnot, hid, hfind]
  simp only [hproves, Bool.not_true, Bool.false_eq_true, if_false, hsettles, setState]

theorem reached_admitted (kind : IntentKind) : Reached ⟨intentFormat, kind, .admitted, []⟩ :=
  (reached_new kind).moveTo rfl rfl nofun

/-- Every list of attempts an intent can have is sent one by one. -/
theorem reached_submitting {kind : IntentKind} {attempts : List OrderAttempt}
    (hlegs : ∀ attempt ∈ attempts, attempt.clientOrderId.leg = kind.leg)
    (hnodup : (attempts.map OrderAttempt.clientOrderId).Nodup)
    (honce : kind.isExit = false → attempts.length ≤ 1) :
    Reached ⟨intentFormat, kind, .submitting, attempts⟩ := by
  induction attempts using List.reverseRecOn with
  | nil => exact (reached_admitted kind).moveTo rfl rfl nofun
  | append_singleton front attempt ih =>
    have hleg := hlegs attempt (by simp)
    rw [List.map_append, List.nodup_append] at hnodup
    obtain ⟨hfront, -, hfresh⟩ := hnodup
    by_cases hfirst : front = []
    · rw [hfirst]
      exact (reached_admitted kind).sent hleg rfl rfl
    · have hmany : 0 < front.length := List.length_pos_iff.mpr hfirst
      have hexit : kind.isExit = true := by
        by_contra hentry
        have := honce (Bool.not_eq_true _ ▸ hentry)
        rw [List.length_append, List.length_singleton] at this
        omega
      have hbefore := ih (fun a ha => hlegs a (List.mem_append_left _ ha)) hfront (by simp [hexit])
      refine hbefore.retried hleg hexit rfl fun hsent => ?_
      exact hfresh _ hsent _ (by simp) rfl

end QuantForge.ExternalIntent

namespace QuantForge.ExternalIntentParts

open ExternalIntent

variable {parts : ExternalIntentParts}

theorem reached_outcome {kind : IntentKind} {state : IntentState} {attempts : List OrderAttempt}
    (h : Reached ⟨intentFormat, kind, .submitting, attempts⟩) (hsent : attempts ≠ [])
    (houtcome : state = .partiallyFilled ∨ state = .filled ∨ state = .unfilled ∨
      state = .rejected) : Reached ⟨intentFormat, kind, state, attempts⟩ := by
  have hlatest : attempts.getLast? = some (attempts.getLast hsent) :=
    List.getLast?_eq_some_getLast hsent
  rcases houtcome with rfl | rfl | rfl | rfl
  · exact h.order .partiallyFilled oneFilled hlatest rfl
  · exact h.order .filled oneFilled hlatest rfl
  · exact h.order .expired noneFilled hlatest rfl
  · exact h.rejected hlatest rfl

/-- Every record that meets all the checks is produced by some operations. -/
theorem produced_of (hformat : parts.format = intentFormat)
    (hlegs : ∀ attempt ∈ parts.attempts, attempt.clientOrderId.leg = parts.kind.leg)
    (honce : parts.kind.isExit = false → parts.attempts.length ≤ 1)
    (hsent : parts.state.settled = true → parts.attempts ≠ []) (hsound : parts.Sound) :
    parts.Produced := by
  obtain ⟨format, kind, state, attempts⟩ := parts
  obtain ⟨hnodup, hempty, hopen, hlapsed⟩ := hsound
  simp only at hformat hlegs honce hsent hnodup hempty hopen hlapsed
  subst hformat
  have hsubmitting := reached_submitting hlegs hnodup honce
  have hunknown : Reached ⟨intentFormat, kind, .outcomeUnknown, attempts⟩ :=
    hsubmitting.moveTo rfl rfl nofun
  show Reached ⟨intentFormat, kind, state, attempts⟩
  cases state with
  | received =>
    rw [hempty rfl]
    exact reached_new kind
  | admitted =>
    rw [hempty rfl]
    exact reached_admitted kind
  | rejected =>
    by_cases hnone : attempts = []
    · rw [hnone]
      exact (reached_new kind).moveTo rfl rfl nofun
    · exact reached_outcome hsubmitting hnone (by simp)
  | duplicate =>
    rw [hempty rfl]
    exact (reached_new kind).moveTo rfl rfl nofun
  | noop =>
    rw [hempty rfl]
    exact (reached_new kind).moveTo rfl rfl nofun
  | expired =>
    have hentry : kind.isExit = false := by
      rw [← Bool.not_eq_true]
      exact fun hexit => (hopen hexit).1 rfl
    rw [hempty rfl]
    exact (reached_admitted kind).moveTo rfl rfl fun _ => hentry
  | submitting => exact hsubmitting
  | outcomeUnknown => exact hunknown
  | notPlaced =>
    have hentry : kind.isExit = false := by
      rw [← Bool.not_eq_true]
      exact fun hexit => (hopen hexit).2 rfl
    obtain ⟨attempt, hattempts⟩ := List.length_eq_one_iff.mp
      (le_antisymm (honce hentry) (List.length_pos_iff.mpr (hsent rfl)))
    have hlapse := hlapsed rfl attempt (by rw [hattempts]; exact List.mem_singleton_self _)
    exact hunknown.notPlaced hentry rfl hattempts hlapse
  | partiallyFilled => exact reached_outcome hsubmitting (hsent rfl) (by simp)
  | filled => exact reached_outcome hsubmitting (hsent rfl) (by simp)
  | unfilled => exact reached_outcome hsubmitting (hsent rfl) (by simp)

/-- An unresolved record that no attempt stands for. -/
def Unsubmitted (parts : ExternalIntentParts) : Prop :=
  parts.state.isUnresolved = true ∧ parts.attempts = []

theorem submitted_iff (state : IntentState) :
    state.submitted = true ↔ state.isUnresolved = true ∨ state.settled = true := by
  cases state <;> decide

theorem unresolved_unsettled {state : IntentState} (h : state.isUnresolved = true) :
    state.settled = false := by
  cases state <;> first | rfl | cases h

/-- What is read back from the store is what the operations can leave, exactly for the
records that are no unresolved ones without an attempt and, where they pass the checks of
the stored form, also pass those of the operations. -/
theorem tryFrom_produced_iff (parts : ExternalIntentParts) :
    ((∃ intent, parts.tryFrom = .ok intent) ↔ parts.Produced) ↔
      (parts.format = intentFormat →
        (∀ attempt ∈ parts.attempts, attempt.clientOrderId.leg = parts.kind.leg) →
        (parts.kind.isExit = false → parts.attempts.length ≤ 1) →
        ¬ parts.Unsubmitted ∧
          ((parts.state.submitted = true → parts.attempts ≠ []) → parts.Sound)) := by
  have hread : (∃ intent, parts.tryFrom = .ok intent) ↔ parts.Checked := by
    constructor
    · rintro ⟨intent, h⟩
      exact (tryFrom_ok.mp h).1
    · intro h
      exact ⟨parts.record, tryFrom_ok.mpr ⟨h, rfl⟩⟩
  rw [hread]
  constructor
  · intro hiff hformat hlegs honce
    have hwaits : ¬ parts.Unsubmitted := by
      rintro ⟨hunresolved, hnone⟩
      have hproduced : parts.Produced := by
        apply produced_of hformat hlegs honce
        · intro hsettled
          rw [unresolved_unsettled hunresolved] at hsettled
          cases hsettled
        · refine ⟨by simp [hnone], fun _ => hnone, fun _ => ?_, fun _ => by simp [hnone]⟩
          constructor <;> intro hstate <;> rw [hstate] at hunresolved <;> cases hunresolved
      exact (hiff.mpr hproduced).sent ((submitted_iff _).mpr (.inl hunresolved)) hnone
    exact ⟨hwaits, fun hsent => (hiff.mp ⟨hformat, hlegs, honce, hsent⟩).sound.2.2.2.2⟩
  · intro h
    constructor
    · rintro ⟨hformat, hlegs, honce, hsent⟩
      apply produced_of hformat hlegs honce
      · exact fun hsettled => hsent ((submitted_iff _).mpr (.inr hsettled))
      · exact (h hformat hlegs honce).2 hsent
    · intro hproduced
      obtain ⟨hformat, hlegs, honce, hsettled, -⟩ := hproduced.sound
      refine ⟨hformat, hlegs, honce, fun hsubmitted hnone => ?_⟩
      rcases (submitted_iff _).mp hsubmitted with hunresolved | hsettles
      · exact (h hformat hlegs honce).1 ⟨hunresolved, hnone⟩
      · exact hsettled hsettles hnone

def solExit : IntentKind := .exit
  { profile := .main
    signal := ⟨"exit", by decide⟩
    signalTimeMs := 0
    key := .solUsdt
    side := .long }

def expiredExit : ExternalIntentParts := ⟨1, solExit, .expired, []⟩

def unsentEntry : ExternalIntentParts := ⟨1, solEntry, .submitting, []⟩

/-- An expired exit is read back although no operation lets an exit expire, and an entry
that was moved to submitting without an attempt is refused. -/
theorem expiredExit_read :
    (∃ intent, expiredExit.tryFrom = .ok intent) ∧ ¬ expiredExit.Produced ∧
      unsentEntry.Produced ∧
      unsentEntry.tryFrom =
        .error (.missingEvidence "intent" "submitting" "an owned order attempt") := by
  refine ⟨⟨_, rfl⟩, ?_, ⟨[.moveTo .admitted, .moveTo .submitting], rfl⟩, rfl⟩
  intro h
  exact (h.sound.2.2.2.2.exit_open rfl).1 rfl

end QuantForge.ExternalIntentParts
