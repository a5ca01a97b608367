import Mathlib.Data.Nat.Digits.Lemmas
import QuantForge.Math.Bytes
import QuantForge.Model.Decimal
import QuantForge.Model.TextParts

namespace QuantForge.Decimal

/-- Whether a text starts with a minus, and what follows it. -/
def signOf (text : List Char) : Bool × List Char :=
  match Text.stripPrefix ['-'] text with
  | some rest => (true, rest)
  | none => (false, text)

/-- The digits before a point, and those after it if there is one. -/
def pointOf (unsigned : List Char) : List Char × Option (List Char) :=
  match Text.splitOnce '.' unsigned with
  | some (integer, fraction) => (integer, some fraction)
  | none => (unsigned, none)

def areDigits (part : List Char) : Bool := !part.isEmpty && part.all Text.isAsciiDigit

def digitsValue (ds : List Char) : Nat := ds.foldl (fun n c => n * 10 + (c.toNat - 48)) 0

/-- The digits `toText` writes before the point. -/
def wholeDigits (d : Decimal) : List Char :=
  (digits (d.scale + 1) d.mantissa).take ((digits (d.scale + 1) d.mantissa).length - d.scale)

/-- The digits `toText` writes after the point. -/
def fractionDigits (d : Decimal) : List Char :=
  (digits (d.scale + 1) d.mantissa).drop ((digits (d.scale + 1) d.mantissa).length - d.scale)

def unsignedText (d : Decimal) : List Char :=
  d.wholeDigits ++ if d.scale = 0 then [] else '.' :: d.fractionDigits

theorem toText_toList (d : Decimal) :
    d.toText.toList = (if d.negative then ['-'] else []) ++ d.unsignedText := by
  rw [toText, String.toList_ofList, List.append_assoc]
  rfl

theorem digitChar_digit {d : Nat} (h : d < 10) : Text.isAsciiDigit (Nat.digitChar d) = true := by
  interval_cases d <;> decide

theorem digitChar_value {d : Nat} (h : d < 10) : (Nat.digitChar d).toNat - 48 = d := by
  interval_cases d <;> decide

theorem digits_length (width n : Nat) :
    (digits width n).length = max width (Nat.digits 10 n).length := by
  simp only [digits, List.length_reverse, List.length_append, List.length_map,
    List.length_replicate]
  omega

theorem digits_all (width n : Nat) : (digits width n).all Text.isAsciiDigit = true := by
  rw [List.all_eq_true]
  intro c hc
  rcases List.mem_append.mp (List.mem_reverse.mp hc) with hc | hc
  · obtain ⟨d, hd, rfl⟩ := List.mem_map.mp hc
    exact digitChar_digit (Nat.digits_lt_base (by decide) hd)
  · rw [(List.mem_replicate.mp hc).2]
    decide

theorem value_reverse (ds : List Nat) (hd : ∀ d ∈ ds, d < 10) (zeros : Nat) :
    digitsValue (ds.map Nat.digitChar ++ List.replicate zeros '0').reverse =
      Nat.ofDigits 10 ds := by
  have hzeros : digitsValue (List.replicate zeros '0') = 0 := by
    induction zeros with
    | zero => rfl
    | succ zeros ih =>
      rw [List.replicate_succ', digitsValue, List.foldl_append, ← digitsValue, ih]
      rfl
  rw [List.reverse_append, List.reverse_replicate]
  induction ds with
  | nil => simpa using hzeros
  | cons d ds ih =>
    have hlow := digitChar_value (hd d (by simp))
    have ih := ih fun e he => hd e (by simp [he])
    rw [List.map_cons, List.reverse_cons, ← List.append_assoc, digitsValue, List.foldl_append,
      ← digitsValue, ih, List.foldl_cons, List.foldl_nil, hlow, Nat.ofDigits_cons]
    ring

/-- The digits written read back as the number. -/
theorem digitsValue_digits (width n : Nat) : digitsValue (digits width n) = n := by
  rw [digits, value_reverse _ fun d hd => Nat.digits_lt_base (by decide) hd, Nat.ofDigits_digits]

theorem whole_append_fraction (d : Decimal) :
    d.wholeDigits ++ d.fractionDigits = digits (d.scale + 1) d.mantissa :=
  List.take_append_drop _ _

theorem fractionDigits_length (d : Decimal) : d.fractionDigits.length = d.scale := by
  have hlen := digits_length (d.scale + 1) d.mantissa
  rw [fractionDigits, List.length_drop]
  omega

theorem wholeDigits_ne (d : Decimal) : d.wholeDigits ≠ [] := by
  have hlen := digits_length (d.scale + 1) d.mantissa
  intro hnil
  have hzero := congrArg List.length hnil
  rw [wholeDigits, List.length_take, List.length_nil] at hzero
  omega

theorem part_digits (d : Decimal) {c : Char} (hc : c ∈ d.wholeDigits ∨ c ∈ d.fractionDigits) :
    Text.isAsciiDigit c = true := by
  have hall := List.all_eq_true.mp (digits_all (d.scale + 1) d.mantissa)
  rcases hc with hc | hc
  · exact hall c (List.mem_of_mem_take hc)
  · exact hall c (List.mem_of_mem_drop hc)

theorem areDigits_whole (d : Decimal) : areDigits d.wholeDigits = true := by
  have hne := d.wholeDigits_ne
  have hall : d.wholeDigits.all Text.isAsciiDigit = true :=
    List.all_eq_true.mpr fun c hc => d.part_digits (.inl hc)
  simp [areDigits, hall, hne]

theorem areDigits_fraction (d : Decimal) (h : d.scale ≠ 0) :
    areDigits d.fractionDigits = true := by
  have hall : d.fractionDigits.all Text.isAsciiDigit = true :=
    List.all_eq_true.mpr fun c hc => d.part_digits (.inr hc)
  have hne : d.fractionDigits ≠ [] := by
    intro hnil
    have hlen := d.fractionDigits_length
    rw [hnil] at hlen
    exact h hlen.symm
  simp [areDigits, hall, hne]

/-- The first digit written is zero only where it is the whole integer
part. -/
theorem wholeDigits_lead (d : Decimal) :
    d.wholeDigits = ['0'] ∨ d.wholeDigits.head? ≠ some '0' := by
  have hlen := digits_length (d.scale + 1) d.mantissa
  by_cases hshort : (Nat.digits 10 d.mantissa).length ≤ d.scale
  · left
    have htotal : (digits (d.scale + 1) d.mantissa).length = d.scale + 1 := by omega
    rw [wholeDigits, htotal, Nat.add_sub_cancel_left]
    have hzero : d.scale + 1 - ((Nat.digits 10 d.mantissa).map Nat.digitChar).length =
        d.scale - (Nat.digits 10 d.mantissa).length + 1 := by
      rw [List.length_map]
      omega
    rw [digits, hzero, List.replicate_succ', ← List.append_assoc, List.reverse_append]
    rfl
  · right
    have hm : d.mantissa ≠ 0 := by
      intro hm
      rw [hm] at hshort
      simp at hshort
    have hne : Nat.digits 10 d.mantissa ≠ [] := Nat.digits_ne_nil_iff_ne_zero.mpr hm
    have hpad : d.scale + 1 - ((Nat.digits 10 d.mantissa).map Nat.digitChar).length = 0 := by
      rw [List.length_map]
      omega
    have hdigits : digits (d.scale + 1) d.mantissa =
        ((Nat.digits 10 d.mantissa).map Nat.digitChar).reverse := by
      rw [digits, hpad, List.replicate_zero, List.append_nil]
    have hhead : d.wholeDigits.head? = (digits (d.scale + 1) d.mantissa).head? := by
      rw [wholeDigits, List.head?_take, if_neg (by omega)]
    rw [hhead, hdigits, List.head?_reverse, List.getLast?_map, List.getLast?_eq_some_getLast hne,
      Option.map_some]
    have hlast := Nat.getLast_digit_ne_zero 10 hm
    have hlt : (Nat.digits 10 d.mantissa).getLast hne < 10 :=
      Nat.digits_lt_base (by decide) (List.getLast_mem hne)
    intro hzero
    have hvalue := digitChar_value hlt
    rw [Option.some.inj hzero] at hvalue
    exact hlast hvalue.symm

theorem digit_ne {c other : Char} (h : Text.isAsciiDigit c = true)
    (hother : Text.isAsciiDigit other = false) : c ≠ other := by
  rintro rfl
  rw [hother] at h
  cases h

theorem signOf_toText (d : Decimal) : signOf d.toText.toList = (d.negative, d.unsignedText) := by
  rw [toText_toList, signOf]
  cases hneg : d.negative with
  | true => simp [Text.stripPrefix]
  | false =>
    have hstart : ['-'].isPrefixOf d.unsignedText = false := by
      cases hwhole : d.wholeDigits with
      | nil => exact absurd hwhole d.wholeDigits_ne
      | cons c cs =>
        have hc : c ≠ '-' :=
          digit_ne (d.part_digits (.inl (by rw [hwhole]; simp))) (by decide)
        simp [unsignedText, hwhole, List.isPrefixOf, hc.symm]
    simp [Text.stripPrefix, hstart]

theorem pointOf_toText (d : Decimal) :
    pointOf d.unsignedText =
      (d.wholeDigits, if d.scale = 0 then none else some d.fractionDigits) := by
  have hwhole : '.' ∉ d.wholeDigits := fun hmem =>
    digit_ne (d.part_digits (.inl hmem)) (by decide) rfl
  unfold pointOf Text.splitOnce unsignedText
  by_cases hscale : d.scale = 0
  · simp [hscale, hwhole]
  · have hbefore : ∀ c ∈ d.wholeDigits, (c != '.') = true := by
      intro c hc
      simp only [bne_iff_ne, ne_eq]
      rintro rfl
      exact hwhole hc
    rw [if_neg hscale, if_neg hscale, if_pos (by simp), List.takeWhile_append_of_pos hbefore,
      List.dropWhile_append_of_pos hbefore]
    simp

theorem digits_29 (d : Decimal) : (digits (d.scale + 1) d.mantissa).length ≤ 29 := by
  have hlt : d.mantissa < 10 ^ 29 := d.mantissa_lt.trans (by norm_num)
  have hlen := (Nat.digits_length_le_iff (by decide) d.mantissa).mpr hlt
  have hscale := d.scale_le
  rw [digits_length]
  omega

/-- A decimal's text is ASCII, and a sign, 29 digits and a point at most. -/
theorem toText_short (d : Decimal) :
    Bytes.isAscii d.toText = true ∧ (Bytes.utf8 d.toText).length ≤ 31 := by
  have hascii : Bytes.isAscii d.toText = true := by
    rw [Bytes.isAscii, List.all_eq_true, toText_toList]
    intro c hc
    have hdigit : ∀ c, Text.isAsciiDigit c = true → c.toNat < 128 := by
      intro c hc
      have hle : c ≤ '9' := by
        simp only [Text.isAsciiDigit, Bool.and_eq_true, decide_eq_true_eq] at hc
        exact hc.2
      have hnat : c.toNat ≤ 57 := hle
      omega
    apply decide_eq_true
    rcases List.mem_append.mp hc with hc | hc
    · split_ifs at hc
      · rw [List.mem_singleton.mp hc]
        decide
      · simp at hc
    · rcases List.mem_append.mp hc with hc | hc
      · exact hdigit c (d.part_digits (.inl hc))
      · split_ifs at hc
        · simp at hc
        · rcases List.mem_cons.mp hc with rfl | hc
          · decide
          · exact hdigit c (d.part_digits (.inr hc))
  refine ⟨hascii, ?_⟩
  have hdigits := d.digits_29
  rw [← whole_append_fraction, List.length_append] at hdigits
  rw [Bytes.utf8_ascii hascii, List.length_map, toText_toList, List.length_append, unsignedText,
    List.length_append]
  have hsign : (if d.negative then ['-'] else []).length ≤ 1 := by
    cases d.negative <;> simp
  have hpoint : (if d.scale = 0 then [] else '.' :: d.fractionDigits).length ≤
      d.fractionDigits.length + 1 := by
    split_ifs <;> simp
  omega

/-- The exact texts as numbers: at most 28 fraction digits, and digits below
2^96. A negative zero is read as zero. -/
def fromExactText (text : String) : Option Decimal :=
  let sign := signOf text.toList
  let point := pointOf sign.2
  let mantissa := digitsValue (point.1 ++ point.2.getD [])
  if h : mantissa < 2 ^ 96 ∧ (point.2.getD []).length ≤ 28 then
    if areDigits point.1 && point.2.all areDigits then
      some ⟨sign.1 && mantissa != 0, mantissa, (point.2.getD []).length, h.1, h.2⟩
    else none
  else none

/-- A decimal's text reads back as the decimal, unless it writes a negative
zero. -/
theorem fromExactText_toText {d : Decimal} (h : d.canonical = d) :
    fromExactText d.toText = some d := by
  have hsign : (d.negative && d.mantissa != 0) = d.negative := by
    by_cases hzero : d.isZero = true
    · have hpositive : d.negative = false := by
        rw [← h, canonical, if_pos hzero]
      rw [hpositive, Bool.false_and]
    · have hm : (d.mantissa != 0) = true := by simpa [isZero] using hzero
      rw [hm, Bool.and_true]
  have hfraction : (if d.scale = 0 then none else some d.fractionDigits).getD [] =
      d.fractionDigits := by
    split_ifs with hscale
    · have hlen := d.fractionDigits_length
      rw [hscale] at hlen
      exact (List.length_eq_zero_iff.mp hlen).symm
    · rfl
  have hdigits : (areDigits d.wholeDigits &&
      (if d.scale = 0 then none else some d.fractionDigits).all areDigits) = true := by
    split_ifs with hscale
    · simp [areDigits_whole]
    · simp [areDigits_whole, areDigits_fraction d hscale]
  simp only [fromExactText, signOf_toText, pointOf_toText, hfraction, whole_append_fraction,
    digitsValue_digits, fractionDigits_length, hdigits, hsign, if_true]
  rw [dif_pos ⟨d.mantissa_lt, d.scale_le⟩]

end QuantForge.Decimal
