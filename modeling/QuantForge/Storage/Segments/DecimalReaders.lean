import QuantForge.Protocol.ExactDecimal
import QuantForge.Storage.Segments.PayloadCodec

namespace QuantForge

namespace Decimal

/-- Only zeros make the number zero. -/
theorem digitsValue_zero {ds : List Char} (hall : ∀ c ∈ ds, Text.isAsciiDigit c = true)
    (h : digitsValue ds = 0) : ∀ c ∈ ds, c = '0' := by
  have hzeros : digitsValue (List.replicate ds.length '0') = 0 := by
    have hreverse := value_reverse [] (by simp) ds.length
    rw [List.map_nil, List.nil_append, List.reverse_replicate] at hreverse
    exact hreverse
  have hsame := digitsValue_injective hall
    (fun c hc => by rw [(List.mem_replicate.mp hc).2]; decide) (by simp) (h.trans hzeros.symm)
  intro c hc
  rw [hsame] at hc
  exact (List.mem_replicate.mp hc).2

end Decimal

namespace Segments

theorem isExactForm_form {text : String} (h : isExactForm text = true) :
    (Decimal.Form.ofText text.toList).Plain ∧ ¬(Decimal.Form.ofText text.toList).MinusZero := by
  have hparts := Decimal.Form.pointOf_parts (Decimal.signOf text.toList).2
  simp only [isExactForm, Bool.and_eq_true, Bool.or_eq_true, beq_iff_eq, bne_iff_ne,
    Bool.not_eq_true'] at h
  obtain ⟨⟨⟨hwhole, hlead⟩, hfraction⟩, hminus⟩ := h
  have hplain : (Decimal.Form.ofText text.toList).Plain := ⟨hwhole, hlead, hfraction⟩
  refine ⟨hplain, ?_⟩
  intro hzero
  obtain ⟨hnegative, hm⟩ := hzero
  have hsign : (Decimal.signOf text.toList).1 = true := hnegative
  have hdigits : ∀ c ∈ (Decimal.Form.ofText text.toList).whole ++
      (Decimal.Form.ofText text.toList).fraction.getD [], c = '0' := by
    apply Decimal.digitsValue_zero ?_ hm
    intro c hc
    rcases List.mem_append.mp hc with hc | hc
    · exact Decimal.Form.whole_digits hplain hc
    · exact Decimal.Form.fraction_digits hplain hc
  rw [hsign, Bool.true_and, ← Bool.not_eq_true, List.all_eq_true] at hminus
  apply hminus
  intro c hc
  rw [← hparts, List.mem_append] at hc
  have hcases : c = '0' ∨ c = '.' := by
    rcases hc with hc | hc
    · exact .inl (hdigits c (List.mem_append_left _ hc))
    · cases hf : (Decimal.pointOf (Decimal.signOf text.toList).2).2 with
      | none => simp [hf] at hc
      | some ds =>
        rw [hf] at hc
        rcases List.mem_cons.mp hc with hc | hc
        · exact .inr hc
        · apply Or.inl
          apply hdigits c
          have hof : (Decimal.Form.ofText text.toList).fraction = some ds := hf
          rw [hof]
          exact List.mem_append_right _ hc
  simpa using hcases

theorem writes_form {text : String} {d : Decimal} (h : d.Writes text) :
    isExactForm text = true := by
  obtain ⟨rfl, hcanonical⟩ := Decimal.writes_iff.mp h
  exact (isExactForm_toText d).mpr hcanonical

section Readers

variable [DecimalParser] [RustDecimal]

/-- A text in the form, read by the exact parser, writes what is read. -/
theorem form_writes {text : String} {d : Decimal} (hform : isExactForm text = true)
    (hread : DecimalParser.fromStrExact text = some d) : d.Writes text := by
  obtain ⟨hplain, hzero⟩ := isExactForm_form hform
  have htext := Decimal.Form.ofText_text text.toList
  obtain ⟨hm, hs, hsign⟩ := RustDecimal.holds hplain htext hread
  exact ⟨_, hplain, hzero, htext, hsign hzero, hm, hs⟩

theorem fromStr_ok {text : String} {d : Decimal} :
    ExactDecimal.fromStr text = .ok ⟨d⟩ ↔ d.Writes text := by
  have hsame : ExactDecimal.isExactForm text = isExactForm text := rfl
  rw [ExactDecimal.fromStr, hsame]
  constructor
  · intro h
    by_cases hform : isExactForm text = true
    · rw [if_pos hform] at h
      cases hread : DecimalParser.fromStrExact text with
      | none => simp [hread] at h
      | some value =>
        simp only [hread, Except.ok.injEq, ExactDecimal.mk.injEq] at h
        rw [← h]
        exact form_writes hform hread
    · rw [if_neg hform] at h
      cases h
  · intro h
    rw [if_pos (writes_form h), RustDecimal.reads h]

theorem isExact_writes {text : String} : isExact text = true ↔ ∃ d : Decimal, d.Writes text := by
  constructor
  · intro h
    rw [isExact, Bool.and_eq_true, Bool.and_eq_true, Option.any_eq_true] at h
    obtain ⟨⟨-, hform⟩, d, hread, -⟩ := h
    exact ⟨d, form_writes hform hread⟩
  · intro h
    obtain ⟨d, hwrites⟩ := h
    obtain ⟨rfl, hcanonical⟩ := Decimal.writes_iff.mp hwrites
    have hexact := RustDecimal.exactParser
    exact (isExact_toText d).mpr hcanonical

/-- The three readers of exact decimal text accept the texts that write a
decimal, and read that decimal, which is written as the same text. -/
theorem exact_readers_agree (text : String) :
    (∀ d, Decimal.parseDecimal text = .ok d ↔ d.Writes text) ∧
      (∀ d, ExactDecimal.fromStr text = .ok ⟨d⟩ ↔ d.Writes text) ∧
      (isExact text = true ↔ ∃ d : Decimal, d.Writes text) ∧
      ((∃ d : Decimal, d.Writes text) ↔ ∃ f : Decimal.Form, f.Plain ∧ ¬f.MinusZero ∧
        f.text = text.toList ∧ f.scale ≤ 28 ∧ f.mantissa < 2 ^ 96) ∧
      ∀ d : Decimal, d.Writes text ↔ d.toText = text ∧ d.canonical = d :=
  ⟨fun _ => Decimal.parseDecimal_ok, fun _ => fromStr_ok, isExact_writes, Decimal.writes_exists,
    fun _ => Decimal.writes_iff⟩

end Readers

theorem fromExactText_holds {text : String} {f : Decimal.Form} {d : Decimal} (hplain : f.Plain)
    (htext : f.text = text.toList) (hread : Decimal.fromExactText text = some d) :
    d.mantissa = f.mantissa ∧ d.scale = f.scale ∧ (¬f.MinusZero → d.negative = f.negative) := by
  have hof := Decimal.Form.text_ofText hplain
  rw [htext] at hof
  obtain ⟨hm, hs, hsign⟩ := Decimal.fromExactText_form hread
  rw [hof] at hm hs hsign
  refine ⟨hm, hs, ?_⟩
  intro hzero
  by_cases hmantissa : f.mantissa = 0
  · have hpositive : f.negative = false := by
      by_contra hnegative
      exact hzero ⟨by simpa using hnegative, hmantissa⟩
    rw [hsign, hpositive, Bool.false_and]
  · have hne : (f.mantissa != 0) = true := bne_iff_ne.mpr hmantissa
    rw [hsign, hne, Bool.and_true]

theorem fromExactText_reads {text : String} {d : Decimal} (h : d.Writes text) :
    Decimal.fromExactText text = some d := by
  obtain ⟨rfl, hcanonical⟩ := Decimal.writes_iff.mp h
  exact Decimal.fromExactText_toText hcanonical

attribute [local instance] exactTextParser

theorem exactTextParser_reads : RustDecimal := ⟨fromExactText_reads, fromExactText_holds⟩

/-- Minus one and a half, to the cent. -/
def samplePrice : Decimal := .negate (.hundredths 150)

theorem samplePrice_reads_everywhere :
    Decimal.parseDecimal "-1.50" = .ok samplePrice ∧
      ExactDecimal.fromStr "-1.50" = .ok ⟨samplePrice⟩ ∧ isExact "-1.50" = true := by
  have hreads := exactTextParser_reads
  obtain ⟨hmodel, hprotocol, hsegment, -, hwrites⟩ := exact_readers_agree "-1.50"
  have hsample : samplePrice.Writes "-1.50" := (hwrites samplePrice).mpr (by decide +kernel)
  exact ⟨(hmodel samplePrice).mpr hsample, (hprotocol samplePrice).mpr hsample,
    hsegment.mpr ⟨samplePrice, hsample⟩⟩

end Segments

end QuantForge
