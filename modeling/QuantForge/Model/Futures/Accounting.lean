import QuantForge.Model.Money
import Mathlib.Data.List.ReduceOption

namespace QuantForge

/-- Whether a cycle's accounting can still change. -/
inductive AccountingStatus
  | provisional
  | final
  deriving DecidableEq

def AccountingStatus.asStr : AccountingStatus → String
  | .provisional => "provisional"
  | .final => "final"

/-- Which of the venue's records a figure comes from. -/
inductive PnlSource
  | fills
  | incomeRecords
  | closedPnl
  | transactionLog
  | derived
  deriving DecidableEq

structure PnlFigure where
  amount : Money
  source : PnlSource
  deriving DecidableEq

/-- A cycle's realized PnL before it is checked. -/
structure RealizedPnlParts where
  settle : Asset
  gross : Option PnlFigure
  fees : Option PnlFigure
  funding : Option PnlFigure
  net : Option PnlFigure
  otherFees : List Money
  status : AccountingStatus
  deriving DecidableEq

namespace RealizedPnlParts

def figures (parts : RealizedPnlParts) : List (Option PnlFigure) :=
  [parts.gross, parts.fees, parts.funding, parts.net]

def pending : ModelError :=
  .missingEvidence "accounting" AccountingStatus.final.asStr
    "gross, fees, funding and net all known"

def checkAssets (settle : Asset) : List PnlFigure → Except ModelError Unit
  | [] => .ok ()
  | figure :: rest =>
    match figure.amount.inAsset settle with
    | .error e => .error e
    | .ok _ => checkAssets settle rest

def checkOtherFees (settle : Asset) (fees : List Money) : Except ModelError Unit :=
  match fees.find? fun fee => fee.asset == settle with
  | some fee => .error (.assetMismatch "fees in other assets" fee.asset.code)
  | none => .ok ()

def checkFinal (parts : RealizedPnlParts) : Except ModelError Unit :=
  if parts.status = .final ∧ parts.figures.any Option.isNone = true then .error pending
  else .ok ()

theorem check_bind {x : Except ModelError Unit} {f : Unit → Except ModelError Unit} :
    (x >>= f) = .ok () ↔ x = .ok () ∧ f () = .ok () := by
  cases x with
  | error e => simp [bind, Except.bind]
  | ok _ => simp [bind, Except.bind]

theorem checkFinal_finalized {parts : RealizedPnlParts}
    (h : parts.figures.any Option.isNone = false) :
    checkFinal { parts with status := .final } = .ok () := by
  have hf : ({ parts with status := .final } : RealizedPnlParts).figures = parts.figures := rfl
  simp [checkFinal, hf, h]

theorem checkAssets_ok {settle : Asset} {figures : List PnlFigure}
    (h : checkAssets settle figures = .ok ()) :
    ∀ figure ∈ figures, figure.amount.asset = settle := by
  induction figures with
  | nil => simp
  | cons figure rest ih =>
    simp only [checkAssets, Money.inAsset] at h
    split_ifs at h with ha
    simp only [List.mem_cons, forall_eq_or_imp]
    exact ⟨not_not.mp ha, ih h⟩

theorem checkOtherFees_ok {settle : Asset} {fees : List Money}
    (h : checkOtherFees settle fees = .ok ()) : ∀ fee ∈ fees, fee.asset ≠ settle := by
  unfold checkOtherFees at h
  cases hf : fees.find? fun fee => fee.asset == settle with
  | some fee => rw [hf] at h; cases h
  | none => simpa using hf

variable [DecimalArith]

/-- Gross less fees plus funding, in the program's own arithmetic. -/
def expectedNet (gross fees funding : Money) : Except ModelError Money :=
  match gross.checkedSub fees with
  | .error e => .error e
  | .ok less => less.checkedAdd funding

def checkNet (parts : RealizedPnlParts) : Except ModelError Unit :=
  match parts.gross, parts.fees, parts.funding, parts.net with
  | some gross, some fees, some funding, some net =>
    match expectedNet gross.amount fees.amount funding.amount with
    | .error e => .error e
    | .ok expected =>
      if !expected.amount.eqv net.amount.amount then
        .error (.invalidAmount "net pnl" net.amount.toText "gross − fees + funding")
      else .ok ()
  | _, _, _, _ => .ok ()

def check (parts : RealizedPnlParts) : Except ModelError Unit := do
  checkAssets parts.settle parts.figures.reduceOption
  checkOtherFees parts.settle parts.otherFees
  checkNet parts
  checkFinal parts

end RealizedPnlParts

/-- A cycle's realized PnL, whose figures agree. -/
structure RealizedPnl [DecimalArith] extends RealizedPnlParts where
  checks : toRealizedPnlParts.check = .ok ()

namespace RealizedPnl

open RealizedPnlParts

variable [DecimalArith]

def checked (parts : RealizedPnlParts) : Except ModelError RealizedPnl :=
  match h : parts.check with
  | .error e => .error e
  | .ok () => .ok ⟨parts, h⟩

/-- From the components; net follows once all three are known. -/
def fromComponents (settle : Asset) (gross fees funding : Option PnlFigure)
    (otherFees : List Money) : Except ModelError RealizedPnl :=
  match gross, fees, funding with
  | some g, some f, some u =>
    match expectedNet g.amount f.amount u.amount with
    | .error e => .error e
    | .ok net => checked ⟨settle, gross, fees, funding, some ⟨net, .derived⟩, otherFees,
        .provisional⟩
  | _, _, _ => checked ⟨settle, gross, fees, funding, none, otherFees, .provisional⟩

/-- From a venue's net summary; gross follows once fees and funding are known. -/
def fromNet (settle : Asset) (net : PnlFigure) (fees funding : Option PnlFigure)
    (otherFees : List Money) : Except ModelError RealizedPnl :=
  match fees, funding with
  | some f, some u =>
    match net.amount.checkedAdd f.amount with
    | .error e => .error e
    | .ok more =>
      match more.checkedSub u.amount with
      | .error e => .error e
      | .ok gross => checked ⟨settle, some ⟨gross, .derived⟩, fees, funding, some net, otherFees,
          .provisional⟩
  | _, _ => checked ⟨settle, none, fees, funding, some net, otherFees, .provisional⟩

theorem check_ok {parts : RealizedPnlParts} :
    parts.check = .ok () ↔
      checkAssets parts.settle parts.figures.reduceOption = .ok () ∧
        checkOtherFees parts.settle parts.otherFees = .ok () ∧
        checkNet parts = .ok () ∧ checkFinal parts = .ok () := by
  simp only [check, check_bind]

/-- The venue's records are final. Refused while any figure is pending. -/
def finalize (self : RealizedPnl) : Except ModelError RealizedPnl :=
  if h : self.figures.any Option.isNone = true then .error pending
  else .ok
    { self with
      status := .final
      checks := by
        obtain ⟨hassets, hfees, hnet, -⟩ := check_ok.mp self.checks
        exact check_ok.mpr ⟨hassets, hfees, hnet, checkFinal_finalized (Bool.not_eq_true _ ▸ h)⟩ }

theorem checkNet_ok {parts : RealizedPnlParts} (h : checkNet parts = .ok ())
    {gross fees funding net : PnlFigure} (hg : parts.gross = some gross)
    (hf : parts.fees = some fees) (hu : parts.funding = some funding)
    (hn : parts.net = some net) :
    ∃ expected, expectedNet gross.amount fees.amount funding.amount = .ok expected ∧
      expected.amount.value = net.amount.amount.value := by
  simp only [checkNet, hg, hf, hu, hn] at h
  cases he : expectedNet gross.amount fees.amount funding.amount with
  | error e => rw [he] at h; cases h
  | ok expected =>
    simp only [he] at h
    split_ifs at h with hne
    exact ⟨expected, rfl, (Decimal.eqv_iff _ _).mp (by simpa using hne)⟩

/-- The figures of a PnL in `settle` are in that asset, its other fees are
not, and its net is gross less fees plus funding. -/
structure Consistent (settle : Asset) (pnl : RealizedPnlParts) : Prop where
  settle_eq : pnl.settle = settle
  assets : ∀ figure, some figure ∈ pnl.figures → figure.amount.asset = settle
  others : ∀ fee ∈ pnl.otherFees, fee.asset ≠ settle
  net : ∀ gross fees funding net, pnl.gross = some gross → pnl.fees = some fees →
    pnl.funding = some funding → pnl.net = some net →
    ∃ expected, expectedNet gross.amount fees.amount funding.amount = .ok expected ∧
      expected.amount.value = net.amount.amount.value

theorem consistent (pnl : RealizedPnl) :
    Consistent pnl.settle pnl.toRealizedPnlParts := by
  obtain ⟨hassets, hfees, hnet, -⟩ := check_ok.mp pnl.checks
  refine ⟨rfl, fun figure hf => ?_, checkOtherFees_ok hfees,
    fun gross fees funding net hg hf hu hn => checkNet_ok hnet hg hf hu hn⟩
  exact checkAssets_ok hassets figure (List.reduceOption_mem_iff.mpr hf)

/-- A final PnL has every figure. -/
theorem final_known (pnl : RealizedPnl) (h : pnl.status = .final) :
    ∀ figure ∈ pnl.figures, figure.isSome = true := by
  have hf := (check_ok.mp pnl.checks).2.2.2
  unfold checkFinal at hf
  split_ifs at hf with hp
  intro figure hm
  rw [Option.isSome_iff_ne_none]
  rintro rfl
  exact hp ⟨h, List.any_eq_true.mpr ⟨none, hm, rfl⟩⟩

end RealizedPnl

end QuantForge
