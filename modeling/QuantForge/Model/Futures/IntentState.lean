import QuantForge.Model.Futures.Order

namespace QuantForge

/-- Where an external signal's intent stands. -/
inductive IntentState
  | received
  | admitted
  | rejected
  | duplicate
  | noop
  | expired
  | submitting
  | outcomeUnknown
  | notPlaced
  | partiallyFilled
  | filled
  | unfilled
  deriving DecidableEq

namespace IntentState

def initial : IntentState := .received

/-- Every allowed move. -/
def transitions : List (IntentState × IntentState) :=
  [(.received, .admitted),
   (.received, .rejected),
   (.received, .duplicate),
   (.received, .noop),
   (.admitted, .submitting),
   (.admitted, .expired),
   (.admitted, .rejected),
   (.admitted, .noop),
   (.submitting, .partiallyFilled),
   (.submitting, .filled),
   (.submitting, .unfilled),
   (.submitting, .rejected),
   (.submitting, .outcomeUnknown),
   (.outcomeUnknown, .partiallyFilled),
   (.outcomeUnknown, .filled),
   (.outcomeUnknown, .unfilled),
   (.outcomeUnknown, .rejected),
   (.outcomeUnknown, .notPlaced),
   (.partiallyFilled, .filled)]

def asStr : IntentState → String
  | .received => "received"
  | .admitted => "admitted"
  | .rejected => "rejected"
  | .duplicate => "duplicate"
  | .noop => "noop"
  | .expired => "expired"
  | .submitting => "submitting"
  | .outcomeUnknown => "outcome_unknown"
  | .notPlaced => "not_placed"
  | .partiallyFilled => "partially_filled"
  | .filled => "filled"
  | .unfilled => "unfilled"

def isTerminal : IntentState → Bool
  | .rejected | .duplicate | .noop | .expired | .notPlaced | .filled | .unfilled => true
  | _ => false

/-- Whether an entry in this state blocks every other entry on its position. -/
def isUnresolved : IntentState → Bool
  | .submitting | .outcomeUnknown => true
  | _ => false

def canMoveTo (self dst : IntentState) : Bool := transitions.contains (self, dst)

def invalid (self dst : IntentState) : ModelError :=
  .invalidTransition "intent" self.asStr dst.asStr

def checked (self dst : IntentState) : Except ModelError IntentState :=
  if !self.canMoveTo dst then .error (self.invalid dst) else .ok dst

/-- Whether a plain move to `dst` is refused for want of the venue's evidence. -/
def gated (self dst : IntentState) : Bool :=
  (match dst with
    | .partiallyFilled | .filled | .unfilled | .notPlaced => true
    | _ => false) || (dst == .rejected && self.isUnresolved)

def moveTo (self dst : IntentState) : Except ModelError IntentState :=
  if self.gated dst then
    .error (.missingEvidence "intent" dst.asStr
      "an order, a fill or a refusal read back from the venue")
  else self.checked dst

/-- What an order read back from a query or the stream proves. -/
def onOrder (self : IntentState) (order : FuturesOrder) : Except ModelError IntentState :=
  let settle (dst : IntentState) := if dst = self then .ok self else self.checked dst
  match order.status, order.status.isFinal, !order.filled.isZero with
  | .rejected, _, false => settle .rejected
  | _, true, true => settle .filled
  | _, true, false => settle .unfilled
  | _, false, true => settle .partiallyFilled
  -- Still working, with nothing filled: no outcome yet.
  | _, false, false => .ok self

def onFill (self : IntentState) (_fill : FuturesFill) : Except ModelError IntentState :=
  match self with
  | .partiallyFilled | .filled => .ok self
  | _ => self.checked .partiallyFilled

def onRejection (self : IntentState) (_rejection : Rejection) : Except ModelError IntentState :=
  if self ≠ .submitting then .error (self.invalid .rejected) else .ok .rejected

def retryRejected (self : IntentState) : Except ModelError IntentState := self.checked .rejected

def settleNotPlaced (self : IntentState) : Except ModelError IntentState :=
  self.checked .notPlaced

/-- Exposure exists: some of the intent's quantity was filled. -/
def executed : IntentState → Bool
  | .partiallyFilled | .filled => true
  | _ => false

/-- No order was ever sent for the intent. -/
def unsent : IntentState → Bool
  | .received | .admitted | .duplicate | .noop | .expired => true
  | _ => false

theorem checked_ok {self dst t : IntentState} :
    self.checked dst = .ok t ↔ self.canMoveTo dst = true ∧ t = dst := by
  cases h : self.canMoveTo dst <;> simp [checked, h, eq_comm]

theorem moveTo_ok {self dst t : IntentState} :
    self.moveTo dst = .ok t ↔
      self.gated dst = false ∧ self.canMoveTo dst = true ∧ t = dst := by
  unfold moveTo
  split_ifs with h
  · simp [h]
  · simp [h, checked_ok]

/-- An order with something filled moves its intent to an executed state. -/
theorem onOrder_filled {self t : IntentState} {order : FuturesOrder}
    (hf : order.filled.isZero = false) (h : self.onOrder order = .ok t) :
    t.executed = true ∧ (t = self ∨ self.canMoveTo t = true) := by
  cases hs : order.status <;>
    simp only [onOrder, hs, hf, FuturesOrderStatus.isFinal, Bool.not_false] at h <;>
    split_ifs at h with heq <;> simp_all [checked_ok] <;> (try subst heq) <;> simp_all [executed]

/-- An order with nothing filled settles its intent unfilled or rejected, or
says nothing yet. -/
theorem onOrder_unfilled {self t : IntentState} {order : FuturesOrder}
    (hf : order.filled.isZero = true) (h : self.onOrder order = .ok t) :
    t = self ∨ (self.canMoveTo t = true ∧ (t = .unfilled ∨ t = .rejected)) := by
  cases hs : order.status <;>
    simp only [onOrder, hs, hf, FuturesOrderStatus.isFinal, Bool.not_true] at h <;>
    (try split_ifs at h) <;> simp_all [checked_ok]

theorem onFill_ok {self t : IntentState} {fill : FuturesFill} (h : self.onFill fill = .ok t) :
    t.executed = true ∧ (t = self ∨ self.canMoveTo t = true) := by
  cases self <;> simp only [onFill, checked_ok, Except.ok.injEq] at h
  case partiallyFilled | filled =>
    subst h
    exact ⟨rfl, .inl rfl⟩
  all_goals
    obtain ⟨hm, rfl⟩ := h
    exact ⟨rfl, .inr hm⟩

theorem onRejection_ok {self t : IntentState} {rejection : Rejection} :
    self.onRejection rejection = .ok t ↔ self = .submitting ∧ t = .rejected := by
  unfold onRejection
  split_ifs with h
  · simp [h]
  · simp_all [eq_comm]

theorem terminal_stuck (self dst : IntentState) (h : self.isTerminal = true) :
    self.canMoveTo dst = false := by
  cases self <;> simp only [isTerminal, Bool.false_eq_true] at h <;> cases dst <;> rfl

theorem unresolved_not_terminal (self : IntentState) (h : self.isUnresolved = true) :
    self.isTerminal = false := by
  cases self <;> first | rfl | exact absurd h (by decide)

theorem executed_stays (self dst : IntentState) (h : self.executed = true)
    (hm : self.canMoveTo dst = true) : dst.executed = true := by
  cases self <;> simp only [executed, Bool.false_eq_true] at h <;> cases dst <;>
    first | rfl | exact absurd hm (by decide)

theorem unsent_before (self dst : IntentState) (hm : self.canMoveTo dst = true)
    (h : dst.unsent = true) : self.unsent = true := by
  cases dst <;> simp only [unsent, Bool.false_eq_true] at h <;> cases self <;>
    first | rfl | exact absurd hm (by decide)

/-- A plain move to rejected happens before any order. -/
theorem rejected_before (self : IntentState) (hm : self.canMoveTo .rejected = true)
    (hg : self.gated .rejected = false) : self.unsent = true := by
  cases self <;> first | rfl | exact absurd hm (by decide) | exact absurd hg (by decide)

/-- Before any order only a plain move to submitting leaves the unsent states. -/
theorem unsent_after (self dst : IntentState) (h : self.unsent = true)
    (hm : self.canMoveTo dst = true) :
    dst.unsent = true ∨ dst = .rejected ∨ (self = .admitted ∧ dst = .submitting) := by
  cases self <;> simp only [unsent, Bool.false_eq_true] at h <;> cases dst <;>
    first | exact absurd hm (by decide) | simp [unsent]

theorem unsent_mem (self : IntentState) :
    self.unsent = true ↔ self ∈ [.received, .admitted, .duplicate, .noop, .expired] := by
  cases self <;> simp [unsent]

theorem executed_mem (self : IntentState) :
    self.executed = true ↔ self = .partiallyFilled ∨ self = .filled := by
  cases self <;> simp [executed]

end IntentState

end QuantForge
