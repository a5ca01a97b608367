import QuantForge.Model.Externals

namespace QuantForge

namespace Segments

/-- The longest decimal text: a sign, 29 digits, and the point. -/
def maxDecimalLen : Nat := 31

/-- `-?(0|[1-9][0-9]*)(\.[0-9]+)?`, with no minus sign on zero. -/
def isExactForm (text : String) : Bool :=
  let sign := Decimal.signOf text.toList
  let point := Decimal.pointOf sign.2
  let wellFormed := Decimal.areDigits point.1 &&
    (point.1 == ['0'] || point.1.head? != some '0') && point.2.all Decimal.areDigits
  let zero := sign.2.all fun c => c == '0' || c == '.'
  wellFormed && !(sign.1 && zero)

/-- Whether a text is a decimal in its one written form, which a decimal
holds without rounding. -/
def isExact [DecimalParser] (text : String) : Bool :=
  (Bytes.utf8 text).length ≤ maxDecimalLen && isExactForm text &&
    (DecimalParser.fromStrExact text).any fun value => value.toText == text

/-- A decimal's text, with no sign on zero. -/
def written (value : Decimal) : String := value.canonical.toText

theorem canonical_canonical (d : Decimal) : d.canonical.canonical = d.canonical := by
  unfold Decimal.canonical
  split_ifs with h h'
  · rfl
  · rfl
  · rfl

theorem written_canonical {d : Decimal} (h : d.canonical = d) : written d = d.toText := by
  rw [written, h]

/-- Only a zero's digits are all zeros. -/
theorem unsignedText_zero (d : Decimal) :
    (d.unsignedText.all fun c => c == '0' || c == '.') = true ↔ d.isZero = true := by
  have hvalue := Decimal.digitsValue_digits (d.scale + 1) d.mantissa
  constructor
  · intro hall
    have hdigits : ∀ c ∈ Decimal.digits (d.scale + 1) d.mantissa, c = '0' := by
      intro c hc
      rw [← d.whole_append_fraction] at hc
      have hdigit := d.part_digits (List.mem_append.mp hc)
      have hmem : c ∈ d.unsignedText := by
        rcases List.mem_append.mp hc with hc | hc
        · exact List.mem_append_left _ hc
        · by_cases hscale : d.scale = 0
          · have hlen := d.fractionDigits_length
            rw [hscale] at hlen
            rw [List.length_eq_zero_iff.mp hlen] at hc
            simp at hc
          · exact List.mem_append_right _ (by simp [hscale, hc])
      have hc := List.all_eq_true.mp hall c hmem
      rw [Bool.or_eq_true, beq_iff_eq, beq_iff_eq] at hc
      rcases hc with hc | hc
      · exact hc
      · exact absurd hc (Decimal.digit_ne hdigit (by decide))
    have hzeros := List.eq_replicate_of_mem hdigits
    have hzero := Decimal.value_reverse [] (by simp) (Decimal.digits (d.scale + 1) d.mantissa).length
    rw [List.map_nil, List.nil_append, List.reverse_replicate, ← hzeros, hvalue] at hzero
    simpa [Decimal.isZero] using hzero
  · intro hzero
    have hm : d.mantissa = 0 := by simpa [Decimal.isZero] using hzero
    have hdigits : Decimal.digits (d.scale + 1) d.mantissa = List.replicate (d.scale + 1) '0' := by
      simp [Decimal.digits, hm]
    rw [List.all_eq_true]
    intro c hc
    have hcases : c ∈ Decimal.digits (d.scale + 1) d.mantissa ∨ c = '.' := by
      rw [← d.whole_append_fraction, List.mem_append]
      rcases List.mem_append.mp hc with hc | hc
      · exact .inl (.inl hc)
      · split_ifs at hc
        · simp at hc
        · rcases List.mem_cons.mp hc with hc | hc
          · exact .inr hc
          · exact .inl (.inr hc)
    rcases hcases with hc | hc
    · rw [hdigits] at hc
      simp [(List.mem_replicate.mp hc).2]
    · simp [hc]

theorem isExactForm_toText (d : Decimal) :
    isExactForm d.toText = true ↔ d.canonical = d := by
  have hlead : (d.wholeDigits == ['0'] || d.wholeDigits.head? != some '0') = true := by
    rcases d.wholeDigits_lead with hlead | hlead
    · simp [hlead]
    · simp [hlead]
  have hfraction :
      (if d.scale = 0 then none else some d.fractionDigits).all Decimal.areDigits = true := by
    split_ifs with hscale
    · rfl
    · simpa using d.areDigits_fraction hscale
  have hsigned : isExactForm d.toText = true ↔ ¬(d.negative = true ∧ d.isZero = true) := by
    rw [isExactForm]
    simp only [Decimal.signOf_toText, Decimal.pointOf_toText, d.areDigits_whole, hlead, hfraction,
      Bool.true_and, Bool.not_eq_true', Bool.and_eq_false_iff]
    rw [← unsignedText_zero, not_and_or, Bool.not_eq_true, Bool.not_eq_true]
  rw [hsigned]
  obtain ⟨negative, mantissa, scale, hm, hs⟩ := d
  unfold Decimal.canonical
  cases negative with
  | false => simp
  | true => split_ifs with hzero <;> simp [hzero]

variable [DecimalParser] [ExactParser]

/-- A decimal's text is exact unless it writes a negative zero. -/
theorem isExact_toText (d : Decimal) : isExact d.toText = true ↔ d.canonical = d := by
  rw [← isExactForm_toText, isExact]
  constructor
  · intro h
    rw [Bool.and_eq_true, Bool.and_eq_true] at h
    exact h.1.2
  · intro h
    have hread := ExactParser.reads_back d ((isExactForm_toText d).mp h)
    simp [h, hread, d.toText_short.2, maxDecimalLen]

theorem isExact_written (d : Decimal) : isExact (written d) = true :=
  (isExact_toText d.canonical).mpr (canonical_canonical d)

end Segments

end QuantForge
