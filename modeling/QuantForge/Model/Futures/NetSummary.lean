import QuantForge.Model.Futures.Accounting
import QuantForge.Model.DecimalRounding

namespace QuantForge

open Rounding Decimal

/-- `rust_decimal`'s checked sums and differences are the exact ones, rounded to fit. -/
class RoundedArith [DecimalArith] : Prop where
  add_rounds (a b : Decimal) : Rounds (DecimalArith.checkedAdd a b) (a.value + b.value)
  sub_rounds (a b : Decimal) : Rounds (DecimalArith.checkedSub a b) (a.value - b.value)

@[reducible] def DecimalArith.rounding : DecimalArith where
  checkedAdd a b := ofRounded (a.value + b.value)
  checkedSub a b := ofRounded (a.value - b.value)

theorem DecimalArith.rounding_roundedArith : @RoundedArith DecimalArith.rounding := by
  let _ := DecimalArith.rounding
  constructor
  · intro a b
    exact ofRounded_rounds _
  · intro a b
    exact ofRounded_rounds _

namespace Money

/-- An amount was reported to be out of range. -/
def ReportsRange {α : Type} (answer : Except ModelError α) : Prop :=
  ∃ value, answer = .error (.invalidAmount "amount" value "within range")

/-- `answer` is the amount `q` in `asset`, rounded, or reported where it is out of range. -/
structure Amounts (answer : Except ModelError Money) (asset : Asset) (q : ℚ) : Prop where
  reports : ¬ format.Fits q 0 → ReportsRange answer
  fits {m : Money} : answer = .ok m → format.Fits q 0
  answers : format.Fits q 0 →
    ∃ m, answer = .ok m ∧ m.asset = asset ∧ m.amount.value = format.rounded q

theorem answered_amounts {answer : Option Decimal} {m other : Money} {q : ℚ}
    (h : Rounds answer q) : Amounts (answered m other answer) m.asset q := by
  constructor
  · intro hq
    rw [h.none_iff.mpr hq]
    exact ⟨_, rfl⟩
  · intro r hr
    by_contra hq
    rw [h.none_iff.mpr hq] at hr
    cases hr
  · intro hq
    obtain ⟨d, hd, hvalue⟩ := h.answers hq
    rw [hd]
    exact ⟨new d m.asset, rfl, rfl, (new_value d m.asset).trans hvalue⟩

section

variable [DecimalArith] [RoundedArith] {m other : Money}

theorem checkedAdd_amounts (h : m.asset = other.asset) :
    Amounts (m.checkedAdd other) m.asset (m.amount.value + other.amount.value) := by
  rw [checkedAdd_eq h]
  exact answered_amounts (RoundedArith.add_rounds _ _)

theorem checkedSub_amounts (h : m.asset = other.asset) :
    Amounts (m.checkedSub other) m.asset (m.amount.value - other.amount.value) := by
  rw [checkedSub_eq h]
  exact answered_amounts (RoundedArith.sub_rounds _ _)

end

end Money

namespace RealizedPnlParts

open Money

theorem checkAssets_of {settle : Asset} {figures : List PnlFigure}
    (h : ∀ figure ∈ figures, figure.amount.asset = settle) :
    checkAssets settle figures = .ok () := by
  induction figures with
  | nil => rfl
  | cons figure rest ih =>
    have hfigure := h figure List.mem_cons_self
    have hrest := ih fun f hf => h f (List.mem_cons_of_mem _ hf)
    simp [checkAssets, inAsset, hfigure, hrest]

theorem checkOtherFees_of {settle : Asset} {fees : List Money}
    (h : ∀ fee ∈ fees, fee.asset ≠ settle) : checkOtherFees settle fees = .ok () := by
  have hnone : (fees.find? fun fee => fee.asset == settle) = none := by
    rw [List.find?_eq_none]
    intro fee hfee
    simpa using h fee hfee
  rw [checkOtherFees, hnone]

variable [DecimalArith]

/-- Once the assets are right, a provisional PnL is refused for its net only. -/
theorem check_eq_checkNet {parts : RealizedPnlParts} (hstatus : parts.status = .provisional)
    (hassets : ∀ figure ∈ parts.figures.reduceOption, figure.amount.asset = parts.settle)
    (hothers : ∀ fee ∈ parts.otherFees, fee.asset ≠ parts.settle) :
    parts.check = checkNet parts := by
  have hfinal : checkFinal parts = .ok () := by
    rw [checkFinal, hstatus]
    exact if_neg fun h => absurd h.1 (by decide)
  rw [check, checkAssets_of hassets, checkOtherFees_of hothers, hfinal]
  cases hnet : checkNet parts with
  | error e => simp [bind, Except.bind]
  | ok _ => simp [bind, Except.bind]

section

variable [RoundedArith] {gross fees funding : Money}

theorem expectedNet_reports (hfees : gross.asset = fees.asset)
    (h : ¬ format.Fits (gross.amount.value - fees.amount.value) 0) :
    ReportsRange (expectedNet gross fees funding) := by
  obtain ⟨value, hless⟩ := (checkedSub_amounts hfees).reports h
  exact ⟨value, by rw [expectedNet, hless]⟩

theorem expectedNet_exact (hfees : gross.asset = fees.asset) (hfunding : gross.asset = funding.asset)
    (hless : format.Holds (gross.amount.value - fees.amount.value))
    (hnet : format.Holds (gross.amount.value - fees.amount.value + funding.amount.value)) :
    ∃ net, expectedNet gross fees funding = .ok net ∧ net.asset = gross.asset ∧
      net.amount.value = gross.amount.value - fees.amount.value + funding.amount.value := by
  obtain ⟨less, hsub, hasset, hvalue⟩ := (checkedSub_amounts hfees).answers hless.fits
  rw [Format.rounded_eq_self hless] at hvalue
  obtain ⟨net, hadd, hasset', hvalue'⟩ :=
    (checkedAdd_amounts (hasset.trans hfunding)).answers (hvalue.symm ▸ hnet.fits)
  rw [hvalue, Format.rounded_eq_self hnet] at hvalue'
  exact ⟨net, by rw [expectedNet, hsub]; exact hadd, hasset'.trans hasset, hvalue'⟩

theorem expectedNet_rounded {net : Money} (hfees : gross.asset = fees.asset)
    (hfunding : gross.asset = funding.asset) (h : expectedNet gross fees funding = .ok net) :
    format.Fits (gross.amount.value - fees.amount.value) 0 ∧
      net.amount.value =
        format.rounded (format.rounded (gross.amount.value - fees.amount.value) +
          funding.amount.value) := by
  unfold expectedNet at h
  cases hsub : gross.checkedSub fees with
  | error e =>
    rw [hsub] at h
    cases h
  | ok less =>
    simp only [hsub] at h
    have hfits := (checkedSub_amounts hfees).fits hsub
    obtain ⟨m, hm, hasset, hvalue⟩ := (checkedSub_amounts hfees).answers hfits
    rw [hsub] at hm
    cases hm
    have hsum := checkedAdd_amounts (hasset.trans hfunding)
    obtain ⟨n, hn, -, hvalue'⟩ := hsum.answers (hsum.fits h)
    rw [h] at hn
    cases hn
    exact ⟨hfits, by rw [hvalue', hvalue]⟩

end

end RealizedPnlParts

namespace RealizedPnl

open Money RealizedPnlParts

/-- The three sums a net summary is taken with need no rounding, up to the first that is
out of range. -/
def SumsExact (net fees funding : ℚ) : Prop :=
  ¬ format.Fits (net + fees) 0 ∨ format.Holds (net + fees) ∧
    (¬ format.Fits (net + fees - funding) 0 ∨ format.Holds (net + fees - funding) ∧
      (¬ format.Fits (net - funding) 0 ∨ format.Holds (net - funding)))

/-- An absent last digit: a sum with places that leave room for `funding`'s is a decimal
where its rounding differs from a decimal by `funding`. -/
theorem holds_of_rounded_onGrid {q r u : ℚ} (hfits : format.Fits q 0)
    (hu : format.OnGrid (format.places q) u) (hr : r = q + u)
    (h : format.rounded (format.rounded q + u) = r) : format.Holds q := by
  have hgrid : format.OnGrid (format.places q) r := by
    rw [← h]
    exact ((Format.rounded_onGrid q).add hu).rounded
  have hq : q = r + -u := by rw [hr, add_neg_cancel_right]
  rw [Format.holds_iff hfits]
  apply Format.rounded_eq_self_of_onGrid
  have := hgrid.add hu.neg
  rwa [← hq] at this

section

variable [DecimalArith]

/-- A net summary with its fees and funding reports an amount out of range, or is taken
with a gross that agrees with it exactly and from which the same net is derived. -/
def TakenExactly (settle : Asset) (net fees funding : PnlFigure) (otherFees : List Money) : Prop :=
  ReportsRange (fromNet settle net (some fees) (some funding) otherFees) ∨
    ∃ pnl gross, fromNet settle net (some fees) (some funding) otherFees = .ok pnl ∧
      pnl.net = some net ∧ pnl.gross = some gross ∧
      gross.amount.amount.value - fees.amount.amount.value + funding.amount.amount.value =
        net.amount.amount.value ∧
      ∃ again derived,
        fromComponents settle (some gross) (some fees) (some funding) otherFees = .ok again ∧
        again.net = some derived ∧ derived.amount.amount.value = net.amount.amount.value

theorem checked_of_check {parts : RealizedPnlParts} (h : parts.check = .ok ()) :
    checked parts = .ok ⟨parts, h⟩ := by
  unfold checked
  split
  · next e he =>
    rw [h] at he
    cases he
  · rfl

theorem checked_of_error {parts : RealizedPnlParts} {e : ModelError} (h : parts.check = .error e) :
    checked parts = .error e := by
  unfold checked
  split
  · next e' he =>
    rw [h] at he
    cases he
    rfl
  · next he =>
    rw [h] at he
    cases he

theorem checked_ok {parts : RealizedPnlParts} {pnl : RealizedPnl} (h : checked parts = .ok pnl) :
    pnl.toRealizedPnlParts = parts ∧ parts.check = .ok () := by
  unfold checked at h
  split at h
  · cases h
  · next hcheck =>
    cases h
    exact ⟨rfl, hcheck⟩

end

section

variable [DecimalArith] [RoundedArith] {settle : Asset} {net fees funding : PnlFigure}
  {otherFees : List Money}

/-- The parts of a net summary, with the gross derived from it. -/
def summary (settle : Asset) (net fees funding : PnlFigure) (otherFees : List Money)
    (gross : Money) : RealizedPnlParts :=
  ⟨settle, some ⟨gross, .derived⟩, some fees, some funding, some net, otherFees, .provisional⟩

omit [RoundedArith] in
theorem summary_check {gross : Money} (hgross : gross.asset = settle)
    (hnet : net.amount.asset = settle) (hfees : fees.amount.asset = settle)
    (hfunding : funding.amount.asset = settle) (hothers : ∀ fee ∈ otherFees, fee.asset ≠ settle) :
    (summary settle net fees funding otherFees gross).check =
      checkNet (summary settle net fees funding otherFees gross) := by
  apply check_eq_checkNet rfl _ hothers
  simp [summary, figures, List.reduceOption, hgross, hnet, hfees, hfunding]

/-- With exact sums the summary is checked with the exact gross. -/
theorem fromNet_gross (hnet : net.amount.asset = settle) (hfees : fees.amount.asset = settle)
    (hfunding : funding.amount.asset = settle)
    (hmore : format.Holds (net.amount.amount.value + fees.amount.amount.value))
    (hgross : format.Holds (net.amount.amount.value + fees.amount.amount.value -
      funding.amount.amount.value)) :
    ∃ gross, fromNet settle net (some fees) (some funding) otherFees =
        checked (summary settle net fees funding otherFees gross) ∧ gross.asset = settle ∧
      gross.amount.value = net.amount.amount.value + fees.amount.amount.value -
        funding.amount.amount.value := by
  obtain ⟨more, hadd, hasset, hvalue⟩ :=
    (checkedAdd_amounts (hnet.trans hfees.symm)).answers hmore.fits
  rw [Format.rounded_eq_self hmore] at hvalue
  rw [hnet] at hasset
  obtain ⟨gross, hsub, hasset', hvalue'⟩ :=
    (checkedSub_amounts (hasset.trans hfunding.symm)).answers (hvalue.symm ▸ hgross.fits)
  rw [hvalue, Format.rounded_eq_self hgross] at hvalue'
  refine ⟨gross, ?_, hasset'.trans hasset, hvalue'⟩
  simp only [fromNet, hadd, hsub]
  rfl

/-- A net summary whose sums need no rounding is taken exactly, or reports the first that
is out of range. -/
theorem takenExactly_of_sums (hnet : net.amount.asset = settle)
    (hfees : fees.amount.asset = settle) (hfunding : funding.amount.asset = settle)
    (hothers : ∀ fee ∈ otherFees, fee.asset ≠ settle)
    (h : SumsExact net.amount.amount.value fees.amount.amount.value
      funding.amount.amount.value) :
    TakenExactly settle net fees funding otherFees := by
  rcases h with hover | ⟨hmore, h⟩
  · left
    obtain ⟨value, hadd⟩ := (checkedAdd_amounts (hnet.trans hfees.symm)).reports hover
    exact ⟨value, by simp only [fromNet, hadd]⟩
  rcases h with hover | ⟨hgross, h⟩
  · left
    obtain ⟨more, hadd, hasset, hvalue⟩ :=
      (checkedAdd_amounts (hnet.trans hfees.symm)).answers hmore.fits
    rw [Format.rounded_eq_self hmore] at hvalue
    rw [hnet] at hasset
    obtain ⟨value, hsub⟩ :=
      (checkedSub_amounts (hasset.trans hfunding.symm)).reports (hvalue.symm ▸ hover)
    exact ⟨value, by simp only [fromNet, hadd, hsub]⟩
  have hderived := @fromNet_gross _ _ _ _ _ _ otherFees hnet hfees hfunding hmore hgross
  obtain ⟨gross, hfrom, hasset, hvalue⟩ := hderived
  have hcheck := summary_check hasset hnet hfees hfunding hothers
  have hless : gross.amount.value - fees.amount.amount.value =
      net.amount.amount.value - funding.amount.amount.value := by
    rw [hvalue]
    ring
  have hsame : gross.asset = fees.amount.asset := hasset.trans hfees.symm
  rcases h with hover | hback
  · left
    have hover' : ReportsRange (expectedNet gross fees.amount funding.amount) :=
      expectedNet_reports hsame (hless.symm ▸ hover)
    obtain ⟨value, hreports⟩ := hover'
    refine ⟨value, ?_⟩
    rw [hfrom]
    apply checked_of_error
    rw [hcheck]
    simp only [summary, checkNet, hreports]
  · right
    have hsum : gross.amount.value - fees.amount.amount.value + funding.amount.amount.value =
        net.amount.amount.value := by
      rw [hless, sub_add_cancel]
    obtain ⟨expected, hexpected, hexpectedAsset, hexpectedValue⟩ :=
      expectedNet_exact hsame (hasset.trans hfunding.symm) (hless.symm ▸ hback)
        (hsum.symm ▸ net.amount.amount.holds_value)
    rw [hsum] at hexpectedValue
    have agrees (figure : PnlFigure) (hfigure : figure.amount.amount.value = net.amount.amount.value) :
        checkNet (summary settle figure fees funding otherFees gross) = .ok () := by
      have heqv : expected.amount.eqv figure.amount.amount = true := by
        rw [eqv_iff, hexpectedValue, hfigure]
      simp [summary, checkNet, hexpected, heqv]
    let again : PnlFigure := ⟨expected, .derived⟩
    have hagain : (summary settle again fees funding otherFees gross).check = .ok () :=
      (summary_check hasset (hexpectedAsset.trans hasset) hfees hfunding hothers).trans
        (agrees again hexpectedValue)
    refine ⟨⟨_, hcheck.trans (agrees net rfl)⟩, ⟨gross, .derived⟩, ?_, rfl, rfl, hsum,
      ⟨_, hagain⟩, again, ?_, rfl, hexpectedValue⟩
    · rw [hfrom]
      exact checked_of_check _
    · simp only [fromComponents, hexpected]
      exact checked_of_check _

/-- A net summary that is taken with the exact gross has exact sums, where the funding has
no place that the sums leave no room for. -/
theorem sums_of_takenExactly (hnet : net.amount.asset = settle)
    (hfees : fees.amount.asset = settle) (hfunding : funding.amount.asset = settle)
    (hmore : format.OnGrid
      (format.places (net.amount.amount.value + fees.amount.amount.value))
      funding.amount.amount.value)
    (hless : format.OnGrid
      (format.places (net.amount.amount.value - funding.amount.amount.value))
      funding.amount.amount.value)
    (h : TakenExactly settle net fees funding otherFees)
    (hreports : ¬ ReportsRange (fromNet settle net (some fees) (some funding) otherFees)) :
    SumsExact net.amount.amount.value fees.amount.amount.value funding.amount.amount.value := by
  rcases h with h | ⟨pnl, gross, hfrom, -, hgross, hsum, -⟩
  · exact absurd h hreports
  simp only [fromNet] at hfrom
  cases hadd : net.amount.checkedAdd fees.amount with
  | error e =>
    rw [hadd] at hfrom
    cases hfrom
  | ok more =>
    simp only [hadd] at hfrom
    cases hsub : more.checkedSub funding.amount with
    | error e =>
      rw [hsub] at hfrom
      cases hfrom
    | ok derived =>
      simp only [hsub] at hfrom
      obtain ⟨hparts, hcheck⟩ := checked_ok hfrom
      rw [hparts] at hgross
      cases hgross
      have haddAmounts := checkedAdd_amounts (hnet.trans hfees.symm)
      have hmoreFits := haddAmounts.fits hadd
      obtain ⟨m, hm, hmoreAsset, hmoreValue⟩ := haddAmounts.answers hmoreFits
      rw [hadd] at hm
      cases hm
      rw [hnet] at hmoreAsset
      have hsubAmounts := checkedSub_amounts (hmoreAsset.trans hfunding.symm)
      obtain ⟨g, hg, hderivedAsset, hderivedValue⟩ := hsubAmounts.answers (hsubAmounts.fits hsub)
      rw [hsub] at hg
      cases hg
      rw [hmoreAsset] at hderivedAsset
      obtain ⟨expected, hexpected, hexpectedValue⟩ :=
        checkNet_ok (check_ok.mp hcheck).2.2.1 rfl rfl rfl rfl
      obtain ⟨hlessFits, hrounded⟩ := expectedNet_rounded (hderivedAsset.trans hfees.symm)
        (hderivedAsset.trans hfunding.symm) hexpected
      have hderived : derived.amount.value = net.amount.amount.value + fees.amount.amount.value +
          -funding.amount.amount.value := by linarith
      have hback : derived.amount.value - fees.amount.amount.value =
          net.amount.amount.value - funding.amount.amount.value := by linarith
      have hgrossEq : net.amount.amount.value + fees.amount.amount.value -
          funding.amount.amount.value = derived.amount.value := by linarith
      rw [hback] at hlessFits hrounded
      rw [hexpectedValue] at hrounded
      refine .inr ⟨?_, .inr ⟨hgrossEq ▸ derived.amount.holds_value, .inr ?_⟩⟩
      · apply holds_of_rounded_onGrid hmoreFits hmore.neg hderived
        rw [← hmoreValue, ← sub_eq_add_neg]
        exact hderivedValue.symm
      · exact holds_of_rounded_onGrid hlessFits hless (by ring) hrounded.symm

/-- Realized PnL from a net summary is exact where its sums need no rounding, and, unless a
place of the funding was rounded away twice, only there. -/
theorem fromNet_exact (hnet : net.amount.asset = settle) (hfees : fees.amount.asset = settle)
    (hfunding : funding.amount.asset = settle)
    (hothers : ∀ fee ∈ otherFees, fee.asset ≠ settle) :
    (SumsExact net.amount.amount.value fees.amount.amount.value funding.amount.amount.value →
      TakenExactly settle net fees funding otherFees) ∧
    (TakenExactly settle net fees funding otherFees →
      ¬ ReportsRange (fromNet settle net (some fees) (some funding) otherFees) →
      format.OnGrid (format.places (net.amount.amount.value + fees.amount.amount.value))
        funding.amount.amount.value →
      format.OnGrid (format.places (net.amount.amount.value - funding.amount.amount.value))
        funding.amount.amount.value →
      SumsExact net.amount.amount.value fees.amount.amount.value funding.amount.amount.value) :=
  ⟨takenExactly_of_sums hnet hfees hfunding hothers, fun h hreports hmore hless =>
    sums_of_takenExactly hnet hfees hfunding hmore hless h hreports⟩

end

def inUsdt (amount : Decimal) (source : PnlSource) : PnlFigure :=
  ⟨Money.new amount .usdt, source⟩

theorem fromNet_exact_ten : let _ := DecimalArith.rounding
    let net := inUsdt (.ofNat 10) .closedPnl
    let fees := inUsdt (.ofNat 1) .fills
    let funding := inUsdt (.ofNat 2) .transactionLog
    (SumsExact net.amount.amount.value fees.amount.amount.value funding.amount.amount.value →
      TakenExactly ⟨"USDT", by decide⟩ net fees funding []) ∧
    (TakenExactly ⟨"USDT", by decide⟩ net fees funding [] →
      ¬ ReportsRange (fromNet ⟨"USDT", by decide⟩ net (some fees) (some funding) []) →
      format.OnGrid (format.places (net.amount.amount.value + fees.amount.amount.value))
        funding.amount.amount.value →
      format.OnGrid (format.places (net.amount.amount.value - funding.amount.amount.value))
        funding.amount.amount.value →
      SumsExact net.amount.amount.value fees.amount.amount.value
        funding.amount.amount.value) := by
  let _ := DecimalArith.rounding
  have _ := DecimalArith.rounding_roundedArith
  exact fromNet_exact rfl rfl rfl (by simp)

/-- A net summary of 10^28. -/
def largeNet : PnlFigure := inUsdt (.ofNat (10 ^ 28)) .closedPnl

def twentieth : PnlFigure := inUsdt (.hundredths 5) .fills

def noFunding : PnlFigure := inUsdt .zero .transactionLog

/-- A fee of 0.05 leaves the gross of 10^28 as it is, and the check rounds it away again. -/
theorem largeNet_gross_rounded : let _ := DecimalArith.rounding
    ((fromNet ⟨"USDT", by decide⟩ largeNet (some twentieth) (some noFunding) []).map
        fun pnl => pnl.gross.map (·.amount.amount.value)) = .ok (some (10 ^ 28)) ∧
      ¬ TakenExactly ⟨"USDT", by decide⟩ largeNet twentieth noFunding [] := by
  let _ := DecimalArith.rounding
  have computed : ((fromNet ⟨"USDT", by decide⟩ largeNet (some twentieth) (some noFunding) []).map
      fun pnl => pnl.gross.map (·.amount.amount.value)) = .ok (some (10 ^ 28)) := by
    decide +kernel
  refine ⟨computed, ?_⟩
  intro h
  rcases h with ⟨value, hreports⟩ | ⟨pnl, gross, hfrom, -, hgross, hsum, -⟩
  · rw [hreports] at computed
    cases computed
  · rw [hfrom] at computed
    have hvalue : gross.amount.amount.value = 10 ^ 28 := by
      have hknown : pnl.gross.map (·.amount.amount.value) = some (10 ^ 28) :=
        Except.ok.inj computed
      rw [hgross] at hknown
      exact Option.some.inj hknown
    rw [hvalue] at hsum
    exact absurd hsum (by decide +kernel)

end RealizedPnl

end QuantForge
