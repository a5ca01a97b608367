import Mathlib.Data.List.TakeWhile
import QuantForge.Math.Numeral
import QuantForge.Model.Externals

namespace QuantForge.Decimal

/-- A decimal's text in its parts: the sign, the digits before the point, and
those after it if there is one. -/
structure Form where
  negative : Bool
  whole : List Char
  fraction : Option (List Char)
  deriving DecidableEq

namespace Form

def text (f : Form) : List Char :=
  (if f.negative then ['-'] else []) ++ f.whole ++
    match f.fraction with
    | some digits => '.' :: digits
    | none => []

def mantissa (f : Form) : Nat := digitsValue (f.whole ++ f.fraction.getD [])

def scale (f : Form) : Nat := (f.fraction.getD []).length

/-- `-?(0|[1-9][0-9]*)(\.[0-9]+)?` -/
structure Plain (f : Form) : Prop where
  whole : areDigits f.whole = true
  lead : f.whole = ['0'] ∨ f.whole.head? ≠ some '0'
  fraction : f.fraction.all areDigits = true

/-- A minus sign on zero. -/
def MinusZero (f : Form) : Prop := f.negative = true ∧ f.mantissa = 0

/-- The parts of a text. -/
def ofText (text : List Char) : Form :=
  let sign := signOf text
  let point := pointOf sign.2
  ⟨sign.1, point.1, point.2⟩

theorem signOf_parts (text : List Char) :
    (if (signOf text).1 then ['-'] else []) ++ (signOf text).2 = text := by
  unfold signOf Text.stripPrefix
  by_cases hminus : ['-'].isPrefixOf text = true
  · obtain ⟨rest, rfl⟩ := List.isPrefixOf_iff_prefix.mp hminus
    simp
  · simp [hminus]

theorem pointOf_parts (unsigned : List Char) :
    (pointOf unsigned).1 ++ (match (pointOf unsigned).2 with
      | some digits => '.' :: digits
      | none => []) = unsigned := by
  unfold pointOf Text.splitOnce
  by_cases hpoint : '.' ∈ unsigned
  · have hsplit := List.takeWhile_append_dropWhile (p := (· != '.')) (l := unsigned)
    have hne : unsigned.dropWhile (· != '.') ≠ [] := by
      intro hnil
      rw [hnil, List.append_nil] at hsplit
      rw [← hsplit] at hpoint
      have hall := List.mem_takeWhile_imp hpoint
      simp at hall
    cases hrest : unsigned.dropWhile (· != '.') with
    | nil => exact absurd hrest hne
    | cons c rest =>
      have hc : c = '.' := by
        have hhead := List.head?_dropWhile_not (fun c => c != '.') unsigned
        rw [hrest] at hhead
        simpa using hhead
      rw [hrest, hc] at hsplit
      simp only [hpoint, if_true, List.drop_succ_cons, List.drop_zero]
      exact hsplit
  · simp [hpoint]

theorem ofText_text (text : List Char) : (ofText text).text = text := by
  have hsign := signOf_parts text
  have hpoint := pointOf_parts (signOf text).2
  rw [ofText, Form.text, List.append_assoc, hpoint, hsign]

theorem whole_digits {f : Form} (h : f.Plain) {c : Char} (hc : c ∈ f.whole) :
    Text.isAsciiDigit c = true := by
  have hwhole := h.whole
  rw [areDigits, Bool.and_eq_true] at hwhole
  exact List.all_eq_true.mp hwhole.2 c hc

theorem whole_ne {f : Form} (h : f.Plain) : f.whole ≠ [] := by
  intro hnil
  have hwhole := h.whole
  rw [hnil] at hwhole
  simp [areDigits] at hwhole

theorem fraction_digits {f : Form} (h : f.Plain) {c : Char} (hc : c ∈ f.fraction.getD []) :
    Text.isAsciiDigit c = true := by
  have hfraction := h.fraction
  cases hf : f.fraction with
  | none => simp [hf] at hc
  | some digits =>
    rw [hf, Option.all_some, areDigits, Bool.and_eq_true] at hfraction
    rw [hf, Option.getD_some] at hc
    exact List.all_eq_true.mp hfraction.2 c hc

/-- A text has one reading. -/
theorem text_ofText {f : Form} (h : f.Plain) : ofText f.text = f := by
  have hwhole : '.' ∉ f.whole := fun hmem => digit_ne (whole_digits h hmem) (by decide) rfl
  have hsign : signOf f.text = (f.negative, f.whole ++ match f.fraction with
      | some digits => '.' :: digits
      | none => []) := by
    rw [signOf, Form.text, List.append_assoc]
    cases f.negative with
    | true => simp [Text.stripPrefix]
    | false =>
      cases hf : f.whole with
      | nil => exact absurd hf (whole_ne h)
      | cons c cs =>
        have hc : c ≠ '-' := digit_ne (whole_digits h (by rw [hf]; simp)) (by decide)
        simp [Text.stripPrefix, List.isPrefixOf, hc.symm]
  have hbefore : ∀ c ∈ f.whole, (c != '.') = true := by
    intro c hc
    simp only [bne_iff_ne, ne_eq]
    intro hpoint
    rw [hpoint] at hc
    exact hwhole hc
  rw [ofText, hsign]
  obtain ⟨negative, whole, fraction⟩ := f
  unfold pointOf Text.splitOnce
  cases fraction with
  | none => simp [hwhole]
  | some digits =>
    simp only [List.mem_append, List.mem_cons, true_or, or_true, if_true,
      List.takeWhile_append_of_pos hbefore, List.dropWhile_append_of_pos hbefore]
    simp

end Form

/-- A digit's number. -/
def digitOf (c : Char) : Nat := c.toNat - 48

theorem digitOf_lt {c : Char} (h : Text.isAsciiDigit c = true) : digitOf c < 10 := by
  have hle : c ≤ '9' := by
    simp only [Text.isAsciiDigit, Bool.and_eq_true, decide_eq_true_eq] at h
    exact h.2
  have hnat : c.toNat ≤ 57 := hle
  rw [digitOf]
  omega

theorem digitOf_injective {c d : Char} (hc : Text.isAsciiDigit c = true)
    (hd : Text.isAsciiDigit d = true) (h : digitOf c = digitOf d) : c = d := by
  have hlow : ∀ {e : Char}, Text.isAsciiDigit e = true → 48 ≤ e.toNat := by
    intro e he
    simp only [Text.isAsciiDigit, Bool.and_eq_true, decide_eq_true_eq] at he
    exact he.1
  have hclow := hlow hc
  have hdlow := hlow hd
  rw [digitOf, digitOf] at h
  exact Char.toNat_inj.mp (by omega)

theorem digitsValue_eq (ds : List Char) : digitsValue ds = Numeral.value 10 (ds.map digitOf) := by
  rw [Numeral.value, List.foldl_map]
  rfl

/-- As many digits of the same number are the same digits. -/
theorem digitsValue_injective {xs ys : List Char} (hx : ∀ c ∈ xs, Text.isAsciiDigit c = true)
    (hy : ∀ c ∈ ys, Text.isAsciiDigit c = true) (hlen : xs.length = ys.length)
    (h : digitsValue xs = digitsValue ys) : xs = ys := by
  have hlt : ∀ {ds : List Char}, (∀ c ∈ ds, Text.isAsciiDigit c = true) →
      ∀ d ∈ (ds.map digitOf).reverse, d < 10 := by
    intro ds hds d hd
    obtain ⟨c, hc, rfl⟩ := List.mem_map.mp (List.mem_reverse.mp hd)
    exact digitOf_lt (hds c hc)
  rw [digitsValue_eq, digitsValue_eq, ← List.reverse_reverse (xs.map digitOf),
    ← List.reverse_reverse (ys.map digitOf), Numeral.value_reverse, Numeral.value_reverse] at h
  have hrev := Nat.ofDigits_inj_of_len_eq (by decide) (by simp [hlen]) (hlt hx) (hlt hy) h
  have hmap := List.reverse_injective hrev
  clear h hrev hlt
  induction xs generalizing ys with
  | nil => exact (List.length_eq_zero_iff.mp hlen.symm).symm
  | cons c xs ih =>
    cases ys with
    | nil => simp at hlen
    | cons d ys =>
      obtain ⟨hc, hxs⟩ := List.forall_mem_cons.mp hx
      obtain ⟨hd, hys⟩ := List.forall_mem_cons.mp hy
      rw [List.map_cons, List.map_cons, List.cons.injEq] at hmap
      rw [digitOf_injective hc hd hmap.1, ih hxs hys (by simpa using hlen) hmap.2]

theorem fromExactText_form {text : String} {d : Decimal} (h : fromExactText text = some d) :
    d.mantissa = (Form.ofText text.toList).mantissa ∧ d.scale = (Form.ofText text.toList).scale ∧
      d.negative = ((Form.ofText text.toList).negative &&
        (Form.ofText text.toList).mantissa != 0) := by
  unfold fromExactText at h
  dsimp only at h
  split_ifs at h
  have hd := Option.some.inj h
  exact ⟨(congrArg mantissa hd).symm, (congrArg scale hd).symm, (congrArg negative hd).symm⟩

/-- Digits without a needless leading zero are the digits of their number. -/
theorem digits_of_value {ds : List Char} {width : Nat} (hall : ∀ c ∈ ds, Text.isAsciiDigit c = true)
    (hwidth : width ≤ ds.length) (hne : ds ≠ [])
    (hlead : ds.length = width ∨ ds.head? ≠ some '0') : digits width (digitsValue ds) = ds := by
  have hlt : ∀ d ∈ ds.map digitOf, d < 10 := by
    intro d hd
    obtain ⟨c, hc, rfl⟩ := List.mem_map.mp hd
    exact digitOf_lt (hall c hc)
  apply digitsValue_injective (List.all_eq_true.mp (digits_all width _)) hall ?_ (digitsValue_digits _ _)
  rw [digits_length]
  rcases hlead with hlen | hhead
  · have hbound : digitsValue ds < 10 ^ width := by
      rw [digitsValue_eq, ← List.reverse_reverse (ds.map digitOf), Numeral.value_reverse, ← hlen]
      have hpow := Nat.ofDigits_lt_base_pow_length (by decide : 1 < 10)
        (fun d hd => hlt d (List.mem_reverse.mp hd))
      simpa using hpow
    have hshort := (Nat.digits_length_le_iff (by decide) _).mpr hbound
    omega
  · have hmaphead : (ds.map digitOf).head? ≠ some 0 := by
      cases ds with
      | nil => exact absurd rfl hne
      | cons c ds =>
        simp only [List.map_cons, List.head?_cons, Option.some.injEq, ne_eq] at hhead ⊢
        intro hzero
        exact hhead (digitOf_injective (hall c (by simp)) (by decide) hzero)
    have hdigits := Numeral.digits_value (by decide) hlt (.inr ⟨by simpa using hne, hmaphead⟩)
    rw [← digitsValue_eq, Numeral.digits] at hdigits
    split_ifs at hdigits with hzero
    · rw [← hdigits] at hmaphead
      exact absurd rfl hmaphead
    · have hlen := congrArg List.length hdigits
      rw [List.length_reverse, List.length_map] at hlen
      omega

/-- The digits a decimal with the form's digits and scale is written in. -/
theorem form_digits {f : Form} {d : Decimal} (h : f.Plain) (hm : d.mantissa = f.mantissa)
    (hs : d.scale = f.scale) :
    digits (d.scale + 1) d.mantissa = f.whole ++ f.fraction.getD [] := by
  have hwhole : 1 ≤ f.whole.length := List.length_pos_iff.mpr (Form.whole_ne h)
  rw [hm, hs, Form.mantissa, Form.scale]
  apply digits_of_value
  · intro c hc
    rcases List.mem_append.mp hc with hc | hc
    · exact Form.whole_digits h hc
    · exact Form.fraction_digits h hc
  · rw [List.length_append]
    omega
  · simp [Form.whole_ne h]
  · rcases h.lead with hzero | hhead
    · left
      rw [List.length_append, hzero, List.length_singleton, Nat.add_comm]
    · right
      rw [List.head?_append_of_ne_nil _ (Form.whole_ne h)]
      exact hhead

/-- A text has the decimal's sign, digits and scale, in the form
`-?(0|[1-9][0-9]*)(\.[0-9]+)?` with no minus sign on zero. -/
def Writes (d : Decimal) (text : String) : Prop :=
  ∃ f : Form, f.Plain ∧ ¬f.MinusZero ∧ f.text = text.toList ∧ d.negative = f.negative ∧
    d.mantissa = f.mantissa ∧ d.scale = f.scale

/-- A decimal holds the texts of that form with at most 28 fraction digits and
digits below 2^96. -/
theorem writes_exists {text : String} : (∃ d : Decimal, d.Writes text) ↔
    ∃ f : Form, f.Plain ∧ ¬f.MinusZero ∧ f.text = text.toList ∧ f.scale ≤ 28 ∧
      f.mantissa < 2 ^ 96 := by
  constructor
  · intro h
    obtain ⟨d, f, hplain, hzero, htext, -, hm, hs⟩ := h
    exact ⟨f, hplain, hzero, htext, hs ▸ d.scale_le, hm ▸ d.mantissa_lt⟩
  · intro h
    obtain ⟨f, hplain, hzero, htext, hs, hm⟩ := h
    exact ⟨⟨f.negative, f.mantissa, f.scale, hm, hs⟩, f, hplain, hzero, htext, rfl, rfl, rfl⟩

/-- The text in that form is the one the decimal is written as. -/
theorem writes_iff {d : Decimal} {text : String} :
    d.Writes text ↔ d.toText = text ∧ d.canonical = d := by
  constructor
  · intro h
    obtain ⟨f, hplain, hzero, htext, hneg, hm, hs⟩ := h
    have hdigits := form_digits hplain hm hs
    have hfraction : (f.fraction.getD []).length = d.scale := hs.symm
    have hwholeDigits : d.wholeDigits = f.whole := by
      rw [wholeDigits, hdigits, List.length_append, hfraction, Nat.add_sub_cancel,
        List.take_left]
    have hfractionDigits : d.fractionDigits = f.fraction.getD [] := by
      rw [fractionDigits, hdigits, List.length_append, hfraction, Nat.add_sub_cancel,
        List.drop_left]
    refine ⟨?_, ?_⟩
    · apply String.toList_inj.mp
      rw [toText_toList, ← htext, Form.text, hneg, unsignedText, hwholeDigits, hfractionDigits,
        List.append_assoc]
      cases hf : f.fraction with
      | none =>
        rw [hf] at hfraction
        simp [← hfraction]
      | some ds =>
        have hne : ds ≠ [] := by
          have hall := hplain.fraction
          rw [hf, Option.all_some, areDigits, Bool.and_eq_true] at hall
          simpa using hall.1
        rw [hf, Option.getD_some] at hfraction
        have hscale : d.scale ≠ 0 := by
          rw [← hfraction]
          exact fun hnil => hne (List.length_eq_zero_iff.mp hnil)
        simp [hscale]
    · unfold canonical
      split_ifs with hiszero
      · have hmzero : d.mantissa = 0 := by simpa [isZero] using hiszero
        have hpositive : d.negative = false := by
          by_contra hnegative
          apply hzero
          rw [Bool.not_eq_false] at hnegative
          exact ⟨by rw [← hneg, hnegative], by rw [← hm, hmzero]⟩
        rw [← hpositive]
      · rfl
  · intro h
    obtain ⟨rfl, hcanonical⟩ := h
    have hfraction : (if d.scale = 0 then none else some d.fractionDigits).getD [] =
        d.fractionDigits := by
      split_ifs with hscale
      · have hlen := d.fractionDigits_length
        rw [hscale] at hlen
        exact (List.length_eq_zero_iff.mp hlen).symm
      · rfl
    have hm : digitsValue (d.wholeDigits ++ d.fractionDigits) = d.mantissa := by
      rw [whole_append_fraction, digitsValue_digits]
    refine ⟨⟨d.negative, d.wholeDigits, if d.scale = 0 then none else some d.fractionDigits⟩,
      ⟨d.areDigits_whole, d.wholeDigits_lead, ?_⟩, ?_, ?_, rfl, ?_, ?_⟩
    · split_ifs with hscale
      · rfl
      · exact d.areDigits_fraction hscale
    · intro hminus
      obtain ⟨hnegative, hzero⟩ := hminus
      rw [Form.mantissa, hfraction, hm] at hzero
      have hpositive : d.negative = false := by
        rw [← hcanonical, canonical, if_pos (by simp [isZero, hzero])]
      rw [hpositive] at hnegative
      cases hnegative
    · rw [toText_toList, Form.text, unsignedText, List.append_assoc]
      by_cases hscale : d.scale = 0
      · simp [hscale]
      · simp [hscale]
    · rw [Form.mantissa, hfraction, hm]
    · rw [Form.scale, hfraction, fractionDigits_length]

end QuantForge.Decimal
