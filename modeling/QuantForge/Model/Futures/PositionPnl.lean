import QuantForge.Model.Futures.Position

namespace QuantForge.PositionCycle

section Runs

variable [DecimalArith]

/-- The cycle's PnL is consistent, and a final one it held before is still
the one it holds. -/
structure PnlSettled (start : PositionCycle) (past : List Op) (s : PositionCycle) : Prop where
  consistent : ∀ pnl, s.pnl = some pnl →
    RealizedPnl.Consistent s.key.instrument.settle pnl.toRealizedPnlParts
  final_stays : ∀ front, front <+: past → ∀ pnl, (machine.run start front).pnl = some pnl →
    pnl.status = .final → s.pnl = some pnl

/-- No PnL in the cycle's settlement asset replaces a different final one. -/
def KeepsFinal (s : PositionCycle) : Op → Prop
  | .setPnl pnl => pnl.settle = s.key.instrument.settle →
    ∀ held, s.pnl = some held → held.status = .final → pnl = held
  | _ => True

def PnlConsistent (s : PositionCycle) : Prop :=
  ∀ pnl, s.pnl = some pnl →
    RealizedPnl.Consistent s.key.instrument.settle pnl.toRealizedPnlParts

theorem change_pnl {s t : PositionCycle} {op : Op} (h : Change s op t) :
    t.pnl = s.pnl ∨ ∃ pnl, op = .setPnl pnl ∧ pnl.settle = s.key.instrument.settle ∧
      t.pnl = some pnl := by
  cases h with
  | priced pnl hsettle => exact .inr ⟨pnl, rfl, hsettle, rfl⟩
  | _ => exact .inl rfl

theorem next_pnl (s : PositionCycle) (op : Op) :
    (machine.next s op).pnl = s.pnl ∨ ∃ pnl, op = .setPnl pnl ∧
      pnl.settle = s.key.instrument.settle ∧ (machine.next s op).pnl = some pnl := by
  rcases next_cases s op with ⟨-, h⟩ | ⟨-, h⟩
  · exact .inl (by rw [h])
  · exact change_pnl h

theorem pnlConsistent_next {s : PositionCycle} (op : Op) (h : PnlConsistent s) :
    PnlConsistent (machine.next s op) := by
  intro pnl hp
  rw [(next_identity s op).1]
  rcases next_pnl s op with hkeep | ⟨taken, -, hsettle, htaken⟩
  · exact h pnl (hkeep ▸ hp)
  · rw [htaken, Option.some.injEq] at hp
    rw [← hp, ← hsettle]
    exact taken.consistent

theorem prefix_snoc {front past : List Op} {op : Op} (h : front <+: past ++ [op]) :
    front <+: past ∨ front = past ++ [op] := by
  rcases List.prefix_concat_iff.mp h with h | h
  · exact .inr h
  · exact .inl h

theorem pnlSettled_step (start : PositionCycle) (past : List Op) (op : Op)
    (h : PnlSettled start past (machine.run start past)) :
    PnlSettled start (past ++ [op]) (machine.next (machine.run start past) op) ↔
      KeepsFinal (machine.run start past) op := by
  constructor
  · intro hnext
    cases op with
    | setPnl pnl =>
      intro hsettle held hheld hfinal
      have hkept := hnext.final_stays past (List.prefix_append past _) held hheld hfinal
      rw [next_priced hsettle] at hkept
      exact Option.some.inj hkept
    | _ => trivial
  · intro hkeeps
    refine ⟨pnlConsistent_next op h.consistent, fun front hfront pnl hpnl hfinal => ?_⟩
    rcases prefix_snoc hfront with hfront | rfl
    · have hheld := h.final_stays front hfront pnl hpnl hfinal
      rcases next_pnl (machine.run start past) op with hsame | ⟨taken, rfl, hsettle, htaken⟩
      · rw [hsame, hheld]
      · rw [htaken, hkeeps hsettle pnl hheld hfinal]
    · rw [← machine.run_snoc]
      exact hpnl

/-- In every state of a run the PnL is consistent and a final one never
changes, exactly when no other PnL is set over a final one. -/
theorem pnl_settled_iff (id : PositionCycleId) (key : PositionKey) (profile : ProfileId)
    (side : PositionSide) (openedBy : OperationId) (openedAtMs : TimestampMs) (ops : List Op) :
    let start := «open» id key profile side openedBy openedAtMs
    (∀ past, past <+: ops → PnlSettled start past (machine.run start past)) ↔
      machine.Every KeepsFinal start ops := by
  intro start
  have hstart : PnlSettled start [] start := by
    constructor
    · intro pnl hp
      cases hp
    · intro front hf pnl hp _
      rw [List.prefix_nil.mp hf] at hp
      exact hp
  exact machine.every_prefix_iff (PnlSettled start) KeepsFinal hstart (pnlSettled_step start) ops

end Runs

section Replaced

attribute [local instance] DecimalArith.aligned

def usdtFigure (amount : Decimal) (source : PnlSource) : Option PnlFigure :=
  some ⟨.new amount PositionKey.solUsdt.instrument.settle, source⟩

/-- Gross 10 with a fee and no funding. -/
def solPnl (fee net : Decimal) (status : AccountingStatus) : RealizedPnlParts where
  settle := PositionKey.solUsdt.instrument.settle
  gross := usdtFigure (.ofNat 10) .fills
  fees := usdtFigure fee .fills
  funding := usdtFigure .zero .transactionLog
  net := usdtFigure net .derived
  otherFees := []
  status := status

def finalPnl : RealizedPnl := ⟨solPnl (.ofUInt32 1) (.ofUInt32 9) .final, by decide⟩

def provisionalPnl : RealizedPnl := ⟨solPnl (.ofUInt32 2) (.ofUInt32 8) .provisional, by decide⟩

/-- A provisional PnL replaces the cycle's final one. -/
theorem final_replaced :
    ¬ PnlSettled (solLong 0) [.setPnl finalPnl, .setPnl provisionalPnl]
      (machine.run (solLong 0) [.setPnl finalPnl, .setPnl provisionalPnl]) := by
  intro h
  have hkept := h.final_stays [.setPnl finalPnl] ⟨_, rfl⟩ finalPnl rfl rfl
  have hnet := congrArg (Option.map fun pnl : RealizedPnl => pnl.net) hkept
  exact absurd hnet (by decide)

end Replaced

end QuantForge.PositionCycle
