import QuantForge.Model.Futures.IntentEvidence

namespace QuantForge

/-- The states an intent has once it was submitted. -/
def IntentState.submitted : IntentState → Bool
  | .submitting | .outcomeUnknown | .partiallyFilled | .filled | .unfilled | .notPlaced => true
  | _ => false

/-- The states that only the venue's evidence leads to. -/
def IntentState.settled : IntentState → Bool
  | .partiallyFilled | .filled | .unfilled | .notPlaced => true
  | _ => false

theorem IntentState.settled_gated (self : IntentState) {dst : IntentState}
    (h : dst.settled = true) : self.gated dst = true := by
  cases dst <;> first | rfl | cases h

/-- An intent record as it is stored, before it is checked. -/
structure ExternalIntentParts where
  format : Nat
  kind : IntentKind
  state : IntentState
  attempts : List OrderAttempt

namespace ExternalIntentParts

def checkLegs (leg : OrderLeg) : List OrderAttempt → Except ModelError Unit
  | [] => .ok ()
  | attempt :: rest =>
    match expectLeg attempt.clientOrderId [leg] with
    | .error e => .error e
    | .ok () => checkLegs leg rest

def record (parts : ExternalIntentParts) : ExternalIntent :=
  ⟨parts.format, parts.kind, parts.state, parts.attempts⟩

def tryFrom (parts : ExternalIntentParts) : Except ModelError ExternalIntent :=
  if parts.format ≠ ExternalIntent.intentFormat then
    .error (.unsupportedFormat "intent" parts.format ExternalIntent.intentFormat)
  else
    match checkLegs parts.kind.leg parts.attempts with
    | .error e => .error e
    | .ok () =>
      if parts.state.submitted && parts.attempts.isEmpty then
        .error (.missingEvidence "intent" parts.state.asStr "an owned order attempt")
      else if !parts.kind.isExit && 1 < parts.attempts.length then
        .error (.invalidIdentifier "entry intent" s!"{parts.attempts.length} attempts"
          "an entry is sent once")
      else .ok parts.record

theorem checkLegs_ok {leg : OrderLeg} {attempts : List OrderAttempt} :
    checkLegs leg attempts = .ok () ↔ ∀ attempt ∈ attempts, attempt.clientOrderId.leg = leg := by
  induction attempts with
  | nil => simp [checkLegs]
  | cons attempt rest ih =>
    rw [List.forall_mem_cons, ← ih, checkLegs]
    cases hleg : expectLeg attempt.clientOrderId [leg] with
    | error e =>
      have hother : attempt.clientOrderId.leg ≠ leg := by
        intro heq
        have hok : expectLeg attempt.clientOrderId [leg] = .ok () := expectLeg_ok.mpr (by simp [heq])
        rw [hleg] at hok
        cases hok
      simp [hother]
    | ok _ =>
      have hsame : attempt.clientOrderId.leg = leg := by simpa using expectLeg_ok.mp hleg
      simp [hsame]

/-- What the stored form is checked for. -/
structure Checked (parts : ExternalIntentParts) : Prop where
  format_eq : parts.format = ExternalIntent.intentFormat
  legs : ∀ attempt ∈ parts.attempts, attempt.clientOrderId.leg = parts.kind.leg
  once : parts.kind.isExit = false → parts.attempts.length ≤ 1
  sent : parts.state.submitted = true → parts.attempts ≠ []

theorem tryFrom_ok {parts : ExternalIntentParts} {intent : ExternalIntent} :
    parts.tryFrom = .ok intent ↔ parts.Checked ∧ intent = parts.record := by
  unfold tryFrom
  constructor
  · intro h
    by_cases hformat : parts.format ≠ ExternalIntent.intentFormat
    · rw [if_pos hformat] at h
      cases h
    rw [if_neg hformat] at h
    cases hlegs : checkLegs parts.kind.leg parts.attempts with
    | error e =>
      rw [hlegs] at h
      cases h
    | ok _ =>
      simp only [hlegs] at h
      split_ifs at h with hsent honce
      refine ⟨⟨not_not.mp hformat, checkLegs_ok.mp hlegs, ?_, ?_⟩, (Except.ok.inj h).symm⟩
      · intro hentry
        by_contra hmany
        exact honce (by simp [hentry, not_le.mp hmany])
      · intro hsubmitted hnone
        exact hsent (by simp [hsubmitted, hnone])
  · rintro ⟨⟨hformat, hlegs, honce, hsent⟩, rfl⟩
    rw [if_neg (not_not.mpr hformat), checkLegs_ok.mpr hlegs]
    have hnone : ¬ (parts.state.submitted && parts.attempts.isEmpty) = true := by
      rw [Bool.and_eq_true, List.isEmpty_iff]
      exact fun h => hsent h.1 h.2
    have hmany : ¬ (!parts.kind.isExit && decide (1 < parts.attempts.length)) = true := by
      rw [Bool.and_eq_true, Bool.not_eq_true', decide_eq_true_eq]
      exact fun h => absurd h.2 (not_lt.mpr (honce h.1))
    simp only [if_neg hnone, if_neg hmany]

/-- Some sequence of operations on a new intent leaves exactly this record. -/
def Produced (parts : ExternalIntentParts) : Prop :=
  ∃ ops, ExternalIntent.machine.run (ExternalIntent.new parts.kind) ops = parts.record

end ExternalIntentParts

namespace ExternalIntent

/-- When an attempt can still be proven never placed: the propagation delay after it ends
within the 64-bit range. -/
def CanLapse (attempt : OrderAttempt) : Prop :=
  attempt.sentAtMs.toInt + propagationDelayMs.toInt < 2 ^ 63

theorem canLapse_of_saturatingSub {attempt : OrderAttempt} {at_ : TimestampMs}
    (h : propagationDelayMs ≤ TimestampMs.saturatingSub at_ attempt.sentAtMs) :
    CanLapse attempt := by
  have hat := at_.toInt_lt
  rw [Int64.le_iff_toInt_le, TimestampMs.saturatingSub] at h
  have hdelay : propagationDelayMs.toInt = 30000 := by decide
  have hclamp : (Int64.ofInt (max (-2 ^ 63) (min (2 ^ 63 - 1)
      (at_.toInt - attempt.sentAtMs.toInt)))).toInt =
      max (-2 ^ 63) (min (2 ^ 63 - 1) (at_.toInt - attempt.sentAtMs.toInt)) := by
    apply Int64.toInt_ofInt_of_le <;> omega
  rw [hclamp] at h
  unfold CanLapse
  omega

/-- What every record of an intent of `kind` keeps of its outcome. -/
structure Settles (kind : IntentKind) (s : ExternalIntent) : Prop where
  kind_eq : s.kind = kind
  format_eq : s.format = intentFormat
  once : kind.isExit = false → s.attempts.length ≤ 1
  sent : s.state.settled = true → s.attempts ≠ []
  exit_open : kind.isExit = true → s.state ≠ .expired ∧ s.state ≠ .notPlaced
  lapsed : s.state = .notPlaced → ∀ attempt ∈ s.attempts, CanLapse attempt

theorem settles_new (kind : IntentKind) : Settles kind (new kind) where
  kind_eq := rfl
  format_eq := rfl
  once _ := Nat.zero_le _
  sent h := by cases h
  exit_open _ := ⟨nofun, nofun⟩
  lapsed h := by cases h

theorem change_format {s t : ExternalIntent} {op : Op} (h : Change s op t) :
    t.format = s.format := by
  cases h <;> rfl

theorem change_settled {s t : ExternalIntent} {op : Op} (h : Change s op t)
    (hs : s.state.settled = true → s.attempts ≠ []) (ht : t.state.settled = true) :
    t.attempts ≠ [] := by
  cases h with
  | moved dst hfree hmove =>
    rw [IntentState.settled_gated s.state ht] at hfree
    cases hfree
  | sent attempt hleg hstate hnone => exact List.cons_ne_nil _ _
  | retried attempt hleg hfresh hexit hopen => simp
  | executed dst hshows hsent hdst hmove => exact hsent
  | settled dst hshows hsent hdst hmove hop => exact hsent
  | ignored hshows hop => exact hs ht

/-- Only a plain move lets an intent expire, and not an exit. -/
theorem next_expired {s : ExternalIntent} {op : Op} (hexit : s.kind.isExit = true)
    (h : (machine.next s op).state = .expired) : s.state = .expired := by
  rcases next_cases s op with ⟨-, hsame⟩ | ⟨-, hchange⟩
  · rwa [hsame] at h
  · generalize hnext : machine.next s op = t at h hchange
    cases hchange with
    | moved dst hfree hmove =>
      have hdst : dst = .expired := h
      have hrefused : machine.next s (.moveTo dst) = s := by
        have hboth : dst = .expired ∧ s.kind.isExit = true := ⟨hdst, hexit⟩
        simp only [Machine.next, machine, moveTo, if_pos hboth]
      rw [hrefused] at hnext
      rw [hnext]
      exact h
    | sent attempt hleg hstate hnone => cases h
    | retried attempt hleg hfresh hexit' hopen => exact h
    | executed dst hshows hsent hdst hmove =>
      have hexpired : dst = .expired := h
      rw [hexpired] at hdst
      cases hdst
    | settled dst hshows hsent hdst hmove hop =>
      have hexpired : dst = .expired := h
      rw [hexpired] at hdst
      rcases hdst with hdst | hdst | hdst <;> cases hdst
    | ignored hshows hop => exact h

theorem setState_state {s : ExternalIntent} {r : Except ModelError IntentState}
    {state : IntentState} (h : (s.setState r).2.state = state) :
    s.state = state ∨ r = .ok state := by
  cases r with
  | error e => exact .inl h
  | ok dst =>
    have hdst : dst = state := h
    exact .inr (by rw [hdst])

theorem recordAttempt_state (s : ExternalIntent) (attempt : OrderAttempt) :
    (s.recordAttempt attempt).2.state = s.state ∨
      (s.recordAttempt attempt).2.state = .submitting := by
  unfold recordAttempt
  cases hleg : expectLeg attempt.clientOrderId [s.kind.leg] with
  | error e => exact .inl rfl
  | ok _ =>
    simp only
    split_ifs with hsent hfirst hretry
    · exact .inl rfl
    · cases hmove : s.state.moveTo .submitting with
      | error e => exact .inl rfl
      | ok state => exact .inr (IntentState.moveTo_ok.mp hmove).2.2
    · exact .inl rfl
    · exact .inl rfl

/-- Only the lookup's evidence settles an intent as never placed: an entry, of which an
attempt could still lapse. -/
theorem next_notPlaced {s : ExternalIntent} {op : Op}
    (h : (machine.next s op).state = .notPlaced) :
    s.state = .notPlaced ∨ (s.kind.isExit = false ∧
      (machine.next s op).attempts = s.attempts ∧ ∃ attempt ∈ s.attempts, CanLapse attempt) := by
  cases op with
  | moveTo dst =>
    left
    simp only [Machine.next, machine, moveTo] at h
    split_ifs at h with hexpired
    · exact h
    · rcases setState_state h with h | h
      · exact h
      · obtain ⟨hfree, -, rfl⟩ := IntentState.moveTo_ok.mp h
        rw [IntentState.settled_gated s.state rfl] at hfree
        cases hfree
  | recordAttempt attempt =>
    left
    rcases recordAttempt_state s attempt with hsame | hsubmitting
    · exact hsame.symm.trans h
    · cases hsubmitting.symm.trans h
  | onOrder order =>
    left
    simp only [Machine.next, machine, onOrder] at h
    split_ifs at h with hown hold
    · exact h
    · exact h
    · rcases setState_state h with h | h
      · exact h
      · cases hfilled : order.filled.isZero with
        | false => cases (IntentState.onOrder_filled hfilled h).1
        | true =>
          rcases IntentState.onOrder_unfilled hfilled h with h | ⟨-, h | h⟩
          · exact h.symm
          · cases h
          · cases h
  | onFill fill =>
    left
    simp only [Machine.next, machine, onFill] at h
    split_ifs at h with hown
    · exact h
    · rcases setState_state h with h | h
      · exact h
      · cases (IntentState.onFill_ok h).1
  | onRejection rejection =>
    left
    simp only [Machine.next, machine, onRejection] at h
    split_ifs at h with hown hold hmany
    · exact h
    · exact h
    · rcases setState_state h with h | h
      · exact h
      · cases (IntentState.checked_ok.mp h).2
    · rcases setState_state h with h | h
      · exact h
      · cases (IntentState.onRejection_ok.mp h).2
  | entryNotPlaced evidence =>
    simp only [Machine.next, machine, entryNotPlaced] at h ⊢
    by_cases hexit : s.kind.isExit = true
    · rw [if_pos hexit] at h
      exact .inl h
    · rw [if_neg hexit] at h ⊢
      cases hfind : s.attempts.find? fun a => a.clientOrderId == evidence.clientOrderId with
      | none =>
        rw [hfind] at h
        exact .inl h
      | some attempt =>
        simp only [hfind] at h ⊢
        by_cases hproven : s.provesNotPlaced attempt.sentAtMs evidence = true
        · simp only [hproven, Bool.not_true, Bool.false_eq_true, if_false] at h ⊢
          rcases setState_state h with h | h
          · exact .inl h
          · refine .inr ⟨Bool.not_eq_true _ ▸ hexit, ?_, attempt, List.mem_of_find?_eq_some hfind, ?_⟩
            · rw [h]
              rfl
            · simp only [provesNotPlaced, Bool.and_eq_true, decide_eq_true_eq] at hproven
              exact canLapse_of_saturatingSub hproven.1.1.1.1.1.2
        · simp only [hproven, Bool.not_false, if_true] at h
          exact .inl h

theorem settles_step {kind : IntentKind} {s : ExternalIntent} {op : Op} (h : Settles kind s) :
    Settles kind (machine.next s op) := by
  rcases next_cases s op with ⟨-, hsame⟩ | ⟨-, hchange⟩
  · rw [hsame]
    exact h
  have hkind : (machine.next s op).kind = kind := (change_kind hchange).trans h.kind_eq
  have honce : kind.isExit = false → (machine.next s op).attempts.length ≤ 1 := by
    intro hentry
    exact change_once hchange (by rw [h.kind_eq, hentry]) (h.once hentry)
  refine ⟨hkind, (change_format hchange).trans h.format_eq, honce, change_settled hchange h.sent,
    ?_, ?_⟩
  · intro hexit
    have hopen := h.exit_open hexit
    constructor
    · intro hstate
      exact hopen.1 (next_expired (by rw [h.kind_eq, hexit]) hstate)
    · intro hstate
      rcases next_notPlaced hstate with hbefore | ⟨hentry, -⟩
      · exact hopen.2 hbefore
      · rw [h.kind_eq, hexit] at hentry
        cases hentry
  · intro hstate
    rcases next_notPlaced hstate with hbefore | ⟨hentry, hattempts, attempt, hmem, hlapse⟩
    · rw [change_terminal hchange (by rw [hbefore]; rfl)]
      exact h.lapsed hbefore
    · rw [hattempts]
      have hsingle := h.once (by rw [← h.kind_eq, hentry])
      intro other hother
      obtain ⟨i, hi, hget⟩ := List.mem_iff_getElem.mp hother
      obtain ⟨j, hj, hget'⟩ := List.mem_iff_getElem.mp hmem
      have hindex : i = j := by omega
      subst hindex
      rw [← hget, hget']
      exact hlapse

theorem settles_run (kind : IntentKind) (ops : List Op) :
    Settles kind (machine.run (new kind) ops) :=
  machine.run_keeps (Settles kind) (settles_new kind) (fun _ _ => settles_step) ops

end ExternalIntent

namespace ExternalIntentParts

open ExternalIntent

/-- What only the operations check. -/
structure Sound (parts : ExternalIntentParts) : Prop where
  ids_nodup : (parts.attempts.map OrderAttempt.clientOrderId).Nodup
  unsent_empty : parts.state.unsent = true → parts.attempts = []
  exit_open : parts.kind.isExit = true → parts.state ≠ .expired ∧ parts.state ≠ .notPlaced
  lapsed : parts.state = .notPlaced → ∀ attempt ∈ parts.attempts, CanLapse attempt

/-- What is known of a record the operations leave. -/
theorem Produced.sound {parts : ExternalIntentParts} (h : parts.Produced) :
    parts.format = intentFormat ∧
      (∀ attempt ∈ parts.attempts, attempt.clientOrderId.leg = parts.kind.leg) ∧
      (parts.kind.isExit = false → parts.attempts.length ≤ 1) ∧
      (parts.state.settled = true → parts.attempts ≠ []) ∧ parts.Sound := by
  obtain ⟨ops, hrun⟩ := h
  have hsettles := settles_run parts.kind ops
  have hrecorded := recorded_run parts.kind ops
  rw [hrun] at hsettles hrecorded
  exact ⟨hsettles.format_eq, hrecorded.legs, hsettles.once, hsettles.sent, hrecorded.ids_nodup,
    hrecorded.unsent_empty, hsettles.exit_open, hsettles.lapsed⟩

end ExternalIntentParts

end QuantForge
