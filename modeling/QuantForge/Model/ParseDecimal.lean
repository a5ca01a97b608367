import QuantForge.Model.DecimalForm

namespace QuantForge

/-- What `rust_decimal`'s exact parser does with text of the form
`-?(0|[1-9][0-9]*)(\.[0-9]+)?`: it reads the digits and the scale, and refuses
what a decimal cannot hold. The sign of a zero is left open. -/
class RustDecimal [DecimalParser] : Prop where
  reads : ∀ {text : String} {d : Decimal}, d.Writes text → DecimalParser.fromStrExact text = some d
  holds : ∀ {text : String} {f : Decimal.Form} {d : Decimal}, f.Plain → f.text = text.toList →
    DecimalParser.fromStrExact text = some d →
      d.mantissa = f.mantissa ∧ d.scale = f.scale ∧ (¬f.MinusZero → d.negative = f.negative)

theorem RustDecimal.exactParser [DecimalParser] [RustDecimal] : ExactParser :=
  ⟨fun _ hcanonical => RustDecimal.reads (Decimal.writes_iff.mpr ⟨rfl, hcanonical⟩)⟩

namespace Decimal

/-- Whether a text is not of the form `parseDecimal` reads: its digits before
the point, and those after it. -/
def wrongForm (text : List Char) : Bool :=
  let digits := (Text.stripPrefix ['-'] text).getD text
  let point := pointOf digits
  let wholeOk := point.1 == ['0'] || (areDigits point.1 && point.1.head? != some '0')
  !wholeOk || !point.2.all areDigits

/-- Parses decimal text exactly, in the protocol's grammar. A sign, exponent,
separator, negative zero or more precision than a decimal holds is refused
rather than rounded. -/
def parseDecimal [DecimalParser] (text : String) : Except ModelError Decimal :=
  if wrongForm text.toList then .error (.invalidDecimal text)
  else
    match DecimalParser.fromStrExact text with
    | none => .error (.invalidDecimal text)
    | some value =>
      -- the parser reads "-0" as a positive zero, so the text decides
      if value.isZero && ['-'].isPrefixOf text.toList then .error (.invalidDecimal text)
      else .ok value

theorem signOf_getD (text : List Char) :
    (Text.stripPrefix ['-'] text).getD text = (signOf text).2 := by
  unfold signOf
  cases Text.stripPrefix ['-'] text <;> rfl

theorem signOf_minus (text : List Char) : (signOf text).1 = ['-'].isPrefixOf text := by
  unfold signOf Text.stripPrefix
  cases hminus : ['-'].isPrefixOf text <;> simp

theorem wrongForm_iff (text : List Char) :
    wrongForm text = false ↔ (Form.ofText text).Plain := by
  have hzero : areDigits ['0'] = true := by decide
  simp only [wrongForm, signOf_getD, Bool.or_eq_false_iff, Bool.not_eq_false', Bool.or_eq_true,
    Bool.and_eq_true, beq_iff_eq, bne_iff_ne]
  constructor
  · intro h
    obtain ⟨hwhole, hfraction⟩ := h
    rcases hwhole with hwhole | ⟨hdigits, hlead⟩
    · exact ⟨by rw [Form.ofText, hwhole]; exact hzero, .inl hwhole, hfraction⟩
    · exact ⟨hdigits, .inr hlead, hfraction⟩
  · intro h
    refine ⟨?_, h.fraction⟩
    rcases h.lead with hwhole | hlead
    · exact .inl hwhole
    · exact .inr ⟨h.whole, hlead⟩

variable [DecimalParser] [RustDecimal]

/-- `parseDecimal` reads the decimal that a text writes, and nothing else. -/
theorem parseDecimal_ok {text : String} {d : Decimal} :
    parseDecimal text = .ok d ↔ d.Writes text := by
  have hform := wrongForm_iff text.toList
  unfold parseDecimal
  constructor
  · intro h
    by_cases hbad : wrongForm text.toList = true
    · rw [if_pos hbad] at h
      cases h
    · rw [if_neg hbad] at h
      have hplain := hform.mp (by simpa using hbad)
      have htext := Form.ofText_text text.toList
      cases hread : DecimalParser.fromStrExact text with
      | none => simp [hread] at h
      | some value =>
        simp only [hread] at h
        split_ifs at h with hminus
        have hvalue := Except.ok.inj h
        rw [hvalue] at hread hminus
        obtain ⟨hm, hs, hsign⟩ := RustDecimal.holds hplain htext hread
        have hzero : ¬(Form.ofText text.toList).MinusZero := by
          intro hzero
          apply hminus
          have hnegative : (signOf text.toList).1 = true := hzero.1
          rw [signOf_minus] at hnegative
          rw [hnegative, isZero, hm, hzero.2]
          rfl
        exact ⟨_, hplain, hzero, htext, hsign hzero, hm, hs⟩
  · intro h
    have hread := RustDecimal.reads h
    obtain ⟨f, hplain, hzero, htext, hneg, hm, hs⟩ := h
    have hof : Form.ofText text.toList = f := by rw [← htext, Form.text_ofText hplain]
    have hgood := hform.mpr (by rw [hof]; exact hplain)
    have hminus : (d.isZero && ['-'].isPrefixOf text.toList) = false := by
      by_contra hminus
      rw [Bool.not_eq_false, Bool.and_eq_true] at hminus
      apply hzero
      rw [← hof]
      refine ⟨?_, ?_⟩
      · rw [Form.ofText, signOf_minus]
        exact hminus.2
      · rw [hof, ← hm]
        simpa [isZero] using hminus.1
    simp only [hgood, hread, hminus, Bool.false_eq_true, if_false]

end Decimal

end QuantForge
