import QuantForge.Framework.Machine
import QuantForge.Model.Futures.Account
import QuantForge.Model.Futures.IntentState

namespace QuantForge

/-- An entry signal, resolved against its profile. -/
structure EntryIntent where
  profile : ProfileId
  signal : SignalId
  signalTimeMs : TimestampMs
  key : PositionKey
  side : PositionSide
  expectedPrice : Price
  stop : Option Price

/-- An exit signal: close the owned cycle on its key's instrument. -/
structure ExitIntent where
  profile : ProfileId
  signal : SignalId
  signalTimeMs : TimestampMs
  key : PositionKey
  side : PositionSide

inductive IntentKind
  | entry (intent : EntryIntent)
  | exit (intent : ExitIntent)

namespace IntentKind

def key : IntentKind → PositionKey
  | .entry intent => intent.key
  | .exit intent => intent.key

/-- The leg its orders are sent as. -/
def leg : IntentKind → OrderLeg
  | .entry _ => .entry
  | .exit _ => .close

def isExit : IntentKind → Bool
  | .entry _ => false
  | .exit _ => true

end IntentKind

/-- What it takes to call an entry never placed. -/
structure NotPlacedEvidence where
  clientOrderId : ClientOrderId
  queriedAtMs : TimestampMs
  guarantee : OrderLookupGuarantee
  position : PositionSnapshot

/-- An external intent and its progress: the record a store keeps. -/
structure ExternalIntent where
  format : Nat
  kind : IntentKind
  state : IntentState
  attempts : List OrderAttempt

namespace ExternalIntent

def intentFormat : Nat := 1

def propagationDelayMs : Int64 := 30000

def new (kind : IntentKind) : ExternalIntent where
  format := intentFormat
  kind := kind
  state := IntentState.initial
  attempts := []

def missing (evidence : String) : ModelError :=
  .missingEvidence "intent" "its next state" evidence

/-- Takes the state a move gives, or refuses with its error. -/
def setState (self : ExternalIntent) :
    Except ModelError IntentState → Except ModelError Unit × ExternalIntent
  | .error e => (.error e, self)
  | .ok state => (.ok (), { self with state := state })

def sentIds (self : ExternalIntent) : List ClientOrderId :=
  self.attempts.map OrderAttempt.clientOrderId

/-- Whether `id` is an exit attempt that a later attempt superseded. -/
def superseded (self : ExternalIntent) (id : ClientOrderId) : Bool :=
  self.kind.isExit &&
    match self.attempts.getLast? with
    | none => false
    | some latest => latest.clientOrderId != id

/-- Whether evidence with this client ID and instrument is for one of the
intent's own attempts. -/
def owns (self : ExternalIntent) (id : Option ClientOrderId) (instrument : InstrumentId) : Bool :=
  (match id with
    | none => false
    | some id => self.attempts.any fun attempt => attempt.clientOrderId == id) &&
    instrument == self.kind.key.instrument

def moveTo (self : ExternalIntent) (dst : IntentState) :
    Except ModelError Unit × ExternalIntent :=
  if dst = .expired ∧ self.kind.isExit = true then
    (.error (.invalidTransition "exit intent" self.state.asStr dst.asStr), self)
  else self.setState (self.state.moveTo dst)

/-- Records an order sent for the intent. An entry is sent once; an exit may
retry while its outcome is open. -/
def recordAttempt (self : ExternalIntent) (attempt : OrderAttempt) :
    Except ModelError Unit × ExternalIntent :=
  match expectLeg attempt.clientOrderId [self.kind.leg] with
  | .error e => (.error e, self)
  | .ok () =>
    if self.attempts.any (fun sent => sent.clientOrderId == attempt.clientOrderId) then
      (.error (.invalidIdentifier "order attempt" attempt.clientOrderId.toText
        "each attempt has its own client order id"), self)
    else
      let retry := self.kind.isExit && self.state.isUnresolved
      if self.state = .admitted ∧ self.attempts.isEmpty = true then
        match self.state.moveTo .submitting with
        | .error e => (.error e, self)
        | .ok state =>
          (.ok (), { self with state := state, attempts := self.attempts ++ [attempt] })
      else if !retry then
        (.error (.invalidTransition "intent" self.state.asStr "another attempt"), self)
      else (.ok (), { self with attempts := self.attempts ++ [attempt] })

/-- An order read back from the venue for one of the intent's attempts. -/
def onOrder (self : ExternalIntent) (order : FuturesOrder) :
    Except ModelError Unit × ExternalIntent :=
  let id := order.clientOrderId
  if !self.owns id order.instrument then
    (.error (missing "evidence for one of the intent's own attempts"), self)
  else
    let nothingExecuted := order.status.isFinal && order.filled.isZero
    -- An earlier attempt that ended without a fill says nothing.
    if nothingExecuted && id.any self.superseded then (.ok (), self)
    else self.setState (self.state.onOrder order)

def onFill (self : ExternalIntent) (fill : FuturesFill) :
    Except ModelError Unit × ExternalIntent :=
  if !self.owns fill.clientOrderId fill.instrument then
    (.error (missing "evidence for one of the intent's own attempts"), self)
  else self.setState (self.state.onFill fill)

/-- The venue's definitive refusal of one of the intent's own attempts. -/
def onRejection (self : ExternalIntent) (rejection : Rejection) :
    Except ModelError Unit × ExternalIntent :=
  let id := rejection.clientOrderId
  if !self.attempts.any (fun sent => sent.clientOrderId == id) then
    (.error (missing "a refusal of one of the intent's own attempts"), self)
  else if self.superseded id then (.ok (), self)
  else if 1 < self.attempts.length then self.setState self.state.retryRejected
  else self.setState (self.state.onRejection rejection)

/-- Whether a lookup and a snapshot prove that an order sent at `sentAt` was
never placed. -/
def provesNotPlaced (self : ExternalIntent) (sentAt : TimestampMs)
    (evidence : NotPlacedEvidence) : Bool :=
  let waited := TimestampMs.saturatingSub evidence.queriedAtMs sentAt
  evidence.guarantee.visibilityVerified && propagationDelayMs ≤ waited &&
    waited ≤ evidence.guarantee.unfilledRetentionMs &&
    evidence.position.instrument == self.kind.key.instrument &&
    propagationDelayMs ≤ TimestampMs.saturatingSub evidence.position.observedAtMs sentAt &&
    evidence.queriedAtMs ≤ evidence.position.observedAtMs && evidence.position.isFlat

/-- Settles an entry whose outcome was unknown as never placed. -/
def entryNotPlaced (self : ExternalIntent) (evidence : NotPlacedEvidence) :
    Except ModelError Unit × ExternalIntent :=
  if self.kind.isExit then (.error (missing "an entry; an exit retries instead"), self)
  else
    match self.attempts.find? fun attempt => attempt.clientOrderId == evidence.clientOrderId with
    | none => (.error (missing "a lookup of the intent's own attempt"), self)
    | some attempt =>
      if !self.provesNotPlaced attempt.sentAtMs evidence then
        (.error (missing ("a verified lookup past the propagation delay, inside retention, " ++
          "and a flat snapshot from after it")), self)
      else self.setState self.state.settleNotPlaced

inductive Op
  | moveTo (dst : IntentState)
  | recordAttempt (attempt : OrderAttempt)
  | onOrder (order : FuturesOrder)
  | onFill (fill : FuturesFill)
  | onRejection (rejection : Rejection)
  | entryNotPlaced (evidence : NotPlacedEvidence)

/-- An intent record under its operations. -/
def machine : Machine ExternalIntent Op ModelError where
  step self
    | .moveTo dst => self.moveTo dst
    | .recordAttempt attempt => self.recordAttempt attempt
    | .onOrder order => self.onOrder order
    | .onFill fill => self.onFill fill
    | .onRejection rejection => self.onRejection rejection
    | .entryNotPlaced evidence => self.entryNotPlaced evidence

/-- An order is the intent's own: one of its attempts, on its instrument. -/
def Own (self : ExternalIntent) (id : Option ClientOrderId) (instrument : InstrumentId) : Prop :=
  instrument = self.kind.key.instrument ∧
    ∃ attempt ∈ self.attempts, id = some attempt.clientOrderId

/-- The evidence of execution an operation carries: an order with something
filled, or a fill, for one of the intent's own attempts on its instrument. -/
def Shows (self : ExternalIntent) : Op → Prop
  | .onOrder order =>
    self.Own order.clientOrderId order.instrument ∧ order.filled.isZero = false
  | .onFill fill => self.Own fill.clientOrderId fill.instrument
  | _ => False

/-- What an accepted operation can do to the record. -/
inductive Change (s : ExternalIntent) : Op → ExternalIntent → Prop
  | moved (dst : IntentState) (hfree : s.state.gated dst = false)
      (hmove : s.state.canMoveTo dst = true) :
      Change s (.moveTo dst) { s with state := dst }
  | sent (attempt : OrderAttempt) (hleg : attempt.clientOrderId.leg = s.kind.leg)
      (hstate : s.state = .admitted) (hnone : s.attempts = []) :
      Change s (.recordAttempt attempt) { s with state := .submitting, attempts := [attempt] }
  | retried (attempt : OrderAttempt) (hleg : attempt.clientOrderId.leg = s.kind.leg)
      (hfresh : attempt.clientOrderId ∉ s.sentIds) (hexit : s.kind.isExit = true)
      (hopen : s.state.isUnresolved = true) :
      Change s (.recordAttempt attempt) { s with attempts := s.attempts ++ [attempt] }
  | executed {op : Op} (dst : IntentState) (hshows : s.Shows op) (hsent : s.attempts ≠ [])
      (hdst : dst.executed = true) (hmove : dst = s.state ∨ s.state.canMoveTo dst = true) :
      Change s op { s with state := dst }
  | settled {op : Op} (dst : IntentState) (hshows : ¬ s.Shows op) (hsent : s.attempts ≠ [])
      (hdst : dst = .unfilled ∨ dst = .rejected ∨ dst = .notPlaced)
      (hmove : s.state.canMoveTo dst = true) (hop : ∀ to_, op ≠ .moveTo to_) :
      Change s op { s with state := dst }
  | ignored {op : Op} (hshows : ¬ s.Shows op) (hop : ∀ to_, op ≠ .moveTo to_) : Change s op s

/-- An operation refuses and leaves the record alone, or makes one of the
changes above. -/
def Steps (s : ExternalIntent) (op : Op) (r : Except ModelError Unit × ExternalIntent) : Prop :=
  (∃ e, r = (.error e, s)) ∨ (r.1 = .ok () ∧ Change s op r.2)

theorem steps_refused (s : ExternalIntent) (op : Op) (e : ModelError) :
    Steps s op (.error e, s) := .inl ⟨e, rfl⟩

theorem steps_setState {s : ExternalIntent} {op : Op} {r : Except ModelError IntentState}
    (h : ∀ dst, r = .ok dst → Change s op { s with state := dst }) :
    Steps s op (s.setState r) := by
  cases r with
  | error e => exact steps_refused s op e
  | ok dst => exact .inr ⟨rfl, h dst rfl⟩

theorem owns_iff {s : ExternalIntent} {id : Option ClientOrderId} {instrument : InstrumentId} :
    s.owns id instrument = true ↔ s.Own id instrument := by
  unfold owns Own
  rw [Bool.and_eq_true, and_comm, beq_iff_eq]
  refine and_congr_right fun _ => ?_
  cases id with
  | none => simp
  | some id => simp only [List.any_eq_true, beq_iff_eq, Option.some.injEq, @eq_comm _ id]

theorem Own.sent {s : ExternalIntent} {id : Option ClientOrderId} {instrument : InstrumentId}
    (h : s.Own id instrument) : s.attempts ≠ [] := by
  obtain ⟨-, attempt, hsent, -⟩ := h
  exact List.ne_nil_of_mem hsent

theorem any_sent {s : ExternalIntent} {id : ClientOrderId} :
    (s.attempts.any fun sent => sent.clientOrderId == id) = true ↔ id ∈ s.sentIds := by
  simp [sentIds]

theorem moveTo_steps (s : ExternalIntent) (dst : IntentState) :
    Steps s (.moveTo dst) (s.moveTo dst) := by
  unfold moveTo
  split_ifs
  · exact steps_refused ..
  · refine steps_setState fun t ht => ?_
    obtain ⟨hfree, hmove, rfl⟩ := IntentState.moveTo_ok.mp ht
    exact .moved t hfree hmove

theorem recordAttempt_steps (s : ExternalIntent) (attempt : OrderAttempt) :
    Steps s (.recordAttempt attempt) (s.recordAttempt attempt) := by
  unfold recordAttempt
  cases hleg : expectLeg attempt.clientOrderId [s.kind.leg] with
  | error e => exact steps_refused ..
  | ok _ =>
    have hl : attempt.clientOrderId.leg = s.kind.leg := by simpa using expectLeg_ok.mp hleg
    simp only [any_sent]
    split_ifs with hfresh hfirst hretry
    · exact steps_refused ..
    · obtain ⟨hstate, hnone⟩ := hfirst
      have hn : s.attempts = [] := by simpa using hnone
      have hm : s.state.moveTo .submitting = .ok .submitting := by rw [hstate]; rfl
      rw [hm]
      exact .inr ⟨rfl, by simpa [hn] using Change.sent attempt hl hstate hn⟩
    · exact steps_refused ..
    · simp only [Bool.not_eq_true, Bool.not_eq_false', Bool.and_eq_true] at hretry
      exact .inr ⟨rfl, .retried attempt hl hfresh hretry.1 hretry.2⟩

theorem onOrder_steps (s : ExternalIntent) (order : FuturesOrder) :
    Steps s (.onOrder order) (s.onOrder order) := by
  unfold onOrder
  simp only
  split_ifs with hown hold
  · exact steps_refused ..
  · refine .inr ⟨rfl, .ignored ?_ (by simp)⟩
    simp only [Shows, not_and, Bool.not_eq_false]
    intro _
    simp only [Bool.and_eq_true] at hold
    exact hold.1.2
  · have ho : s.Own order.clientOrderId order.instrument := owns_iff.mp (by simpa using hown)
    refine steps_setState fun t ht => ?_
    cases hf : order.filled.isZero with
    | false =>
      obtain ⟨hdst, hmove⟩ := IntentState.onOrder_filled hf ht
      exact .executed t ⟨ho, hf⟩ ho.sent hdst hmove
    | true =>
      have hs : ¬ s.Shows (.onOrder order) := by simp [Shows, hf]
      rcases IntentState.onOrder_unfilled hf ht with rfl | ⟨hmove, hdst⟩
      · exact .ignored hs (by simp)
      · exact .settled t hs ho.sent (by tauto) hmove (by simp)

theorem onFill_steps (s : ExternalIntent) (fill : FuturesFill) :
    Steps s (.onFill fill) (s.onFill fill) := by
  unfold onFill
  split_ifs with hown
  · exact steps_refused ..
  · have ho : s.Own fill.clientOrderId fill.instrument := owns_iff.mp (by simpa using hown)
    refine steps_setState fun t ht => ?_
    obtain ⟨hdst, hmove⟩ := IntentState.onFill_ok ht
    exact .executed t ho ho.sent hdst hmove

theorem onRejection_steps (s : ExternalIntent) (rejection : Rejection) :
    Steps s (.onRejection rejection) (s.onRejection rejection) := by
  unfold onRejection
  simp only
  split_ifs with hown hold hmany
  · exact steps_refused ..
  · exact .inr ⟨rfl, .ignored (by simp [Shows]) (by simp)⟩
  all_goals
    have hsent : s.attempts ≠ [] := by rintro hnone; simp [hnone] at hown
    refine steps_setState fun t ht => .settled t (by simp [Shows]) hsent ?_ ?_ (by simp)
  · exact .inr (.inl (IntentState.checked_ok.mp ht).2)
  · obtain ⟨hmove, rfl⟩ := IntentState.checked_ok.mp ht
    exact hmove
  · exact .inr (.inl (IntentState.onRejection_ok.mp ht).2)
  · obtain ⟨hstate, rfl⟩ := IntentState.onRejection_ok.mp ht
    rw [hstate]
    rfl

theorem entryNotPlaced_steps (s : ExternalIntent) (evidence : NotPlacedEvidence) :
    Steps s (.entryNotPlaced evidence) (s.entryNotPlaced evidence) := by
  unfold entryNotPlaced
  split_ifs with hexit
  · exact steps_refused ..
  · cases hfind : s.attempts.find? fun a => a.clientOrderId == evidence.clientOrderId with
    | none => exact steps_refused ..
    | some attempt =>
      have hsent : s.attempts ≠ [] := by rintro hnone; simp [hnone] at hfind
      simp only
      split_ifs with hproven
      · exact steps_refused ..
      · refine steps_setState fun t ht => ?_
        obtain ⟨hmove, rfl⟩ := IntentState.checked_ok.mp ht
        exact .settled _ (by simp [Shows]) hsent (by simp) hmove (by simp)

theorem machine_steps (s : ExternalIntent) (op : Op) : Steps s op (machine.step s op) := by
  cases op with
  | moveTo dst => exact moveTo_steps s dst
  | recordAttempt attempt => exact recordAttempt_steps s attempt
  | onOrder order => exact onOrder_steps s order
  | onFill fill => exact onFill_steps s fill
  | onRejection rejection => exact onRejection_steps s rejection
  | entryNotPlaced evidence => exact entryNotPlaced_steps s evidence

/-- One step of the record: refused and unchanged, or accepted with its change. -/
theorem next_cases (s : ExternalIntent) (op : Op) :
    (¬ machine.Accepts s op ∧ machine.next s op = s) ∨
      (machine.Accepts s op ∧ Change s op (machine.next s op)) := by
  rcases machine_steps s op with ⟨e, h⟩ | h
  · exact .inl (by simp [Machine.Accepts, Machine.next, h])
  · exact .inr h

end ExternalIntent

end QuantForge
