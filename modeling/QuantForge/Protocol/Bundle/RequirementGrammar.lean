import QuantForge.Protocol.Bundle.Requirement
import QuantForge.Framework.Reader
import QuantForge.Model.Trim
import Mathlib.Data.Prod.Lex

namespace QuantForge.Bundle

/-- A number of 32 bits, written without leading zeros. -/
structure IsNumber (digits : List Char) (n : UInt32) : Prop where
  nonempty : digits ≠ []
  digit : ∀ c ∈ digits, Ascii.isDigit c = true
  leading : digits.head? = some '0' → digits = ['0']
  value : Nat.ofDigitChars 10 digits 0 = n.toNat

/-- `MAJOR.MINOR.PATCH`. -/
def IsVersion (text : List Char) (v : EngineVersion) : Prop :=
  ∃ major minor patch, IsNumber major v.major ∧ IsNumber minor v.minor ∧ IsNumber patch v.patch ∧
    text = major ++ '.' :: (minor ++ '.' :: patch)

def Spaces (text : List Char) : Prop := ∀ c ∈ text, c = ' '

/-- An operator and the version it compares with, with spaces around the two
and between them. -/
def IsComparator (part : List Char) (comparator : Operator × EngineVersion) : Prop :=
  ∃ before between version after, Spaces before ∧ Spaces between ∧ Spaces after ∧
    IsVersion version comparator.2 ∧
    part = before ++ (comparator.1.symbol.toList ++ (between ++ version) ++ after)

/-- Comparators separated by commas, at least one. -/
def IsRequirement (text : String) (r : EngineRequirement) : Prop :=
  ∃ parts, parts ≠ [] ∧ text.toList = [','].intercalate parts ∧
    List.Forall₂ IsComparator parts r.comparators

/-- The order of `(major, minor, patch)`, the major number first. -/
def EngineVersion.key (v : EngineVersion) : Nat ×ₗ (Nat ×ₗ Nat) :=
  toLex (v.major.toNat, toLex (v.minor.toNat, v.patch.toNat))

/-- What a comparator asks of a version. -/
def Operator.Asks (operator : Operator) (version bound : EngineVersion) : Prop :=
  match operator with
  | .atLeast => bound.key ≤ version.key
  | .above => bound.key < version.key
  | .atMost => version.key ≤ bound.key
  | .below => version.key < bound.key
  | .exactly => version = bound

section numbers

theorem isDigit_range {c : Char} : Ascii.isDigit c = true ↔ 48 ≤ c.toNat ∧ c.toNat ≤ 57 := by
  simp only [Ascii.isDigit, Bool.and_eq_true, decide_eq_true_eq]
  exact Iff.rfl

/-- A text whose bytes are all digits is these digits. -/
theorem digits_of_utf8 {text : List Char}
    (h : ∀ byte ∈ Bytes.utf8 (String.ofList text), isDigitByte byte = true) :
    ∀ c ∈ text, Ascii.isDigit c = true := by
  have hplain : ∀ n < 58, 48 ≤ n → (Char.ofNat n).toNat = n := by decide
  let shown := (Bytes.utf8 (String.ofList text)).map fun byte => Char.ofNat byte.toNat
  have hrange : ∀ byte ∈ Bytes.utf8 (String.ofList text), 48 ≤ byte.toNat ∧ byte.toNat < 58 := by
    intro byte hbyte
    have hdigit := h byte hbyte
    simp only [isDigitByte, Bool.and_eq_true, decide_eq_true_eq, UInt8.le_iff_toNat_le] at hdigit
    have hlow : 48 ≤ byte.toNat := hdigit.1
    have hhigh : byte.toNat ≤ 57 := hdigit.2
    omega
  have hshown : ∀ c ∈ shown, 48 ≤ c.toNat ∧ c.toNat < 58 := by
    intro c hc
    obtain ⟨byte, hbyte, rfl⟩ := List.mem_map.mp hc
    have hin := hrange byte hbyte
    rw [hplain byte.toNat hin.2 hin.1]
    exact hin
  have hascii : Bytes.isAscii (String.ofList shown) = true := by
    rw [Bytes.isAscii, List.all_eq_true, String.toList_ofList]
    intro c hc
    have hin := hshown c hc
    simp only [decide_eq_true_eq]
    omega
  have hbytes : Bytes.utf8 (String.ofList shown) = Bytes.utf8 (String.ofList text) := by
    rw [Bytes.utf8_ascii hascii, String.toList_ofList, List.map_map]
    conv_rhs => rw [← List.map_id (Bytes.utf8 (String.ofList text))]
    apply List.map_congr_left
    intro byte hbyte
    have hin := hrange byte hbyte
    rw [Function.comp_apply, hplain byte.toNat hin.2 hin.1, UInt8.ofNat_toNat, id]
  have htext : shown = text := by
    have hsame := congrArg String.toList (Bytes.utf8_injective hbytes)
    rwa [String.toList_ofList, String.toList_ofList] at hsame
  intro c hc
  rw [← htext] at hc
  have hin := hshown c hc
  rw [isDigit_range]
  omega

theorem utf8_digits {text : List Char} (h : ∀ c ∈ text, Ascii.isDigit c = true) :
    Bytes.utf8 (String.ofList text) = text.map fun c => UInt8.ofNat c.toNat := by
  have hascii : Bytes.isAscii (String.ofList text) = true := by
    rw [Bytes.isAscii, List.all_eq_true, String.toList_ofList]
    intro c hc
    have hin := isDigit_range.mp (h c hc)
    simp only [decide_eq_true_eq]
    omega
  rw [Bytes.utf8_ascii hascii, String.toList_ofList]

theorem canonical_iff {part : List Char} :
    numberEnd (Bytes.utf8 (String.ofList part)) 0 =
        some (Bytes.utf8 (String.ofList part)).length ↔
      part ≠ [] ∧ (∀ c ∈ part, Ascii.isDigit c = true) ∧
        (part.head? = some '0' → part = ['0']) := by
  constructor
  · intro h
    have hbytes : ∀ byte ∈ Bytes.utf8 (String.ofList part), isDigitByte byte = true := by
      unfold numberEnd at h
      cases hfirst : (Bytes.utf8 (String.ofList part))[0]? with
      | none => simp [hfirst] at h
      | some byte =>
        simp only [hfirst, List.drop_zero, Nat.zero_add] at h
        split_ifs at h with hzero hdigit
        · obtain ⟨hlt, hget⟩ := List.getElem?_eq_some_iff.mp hfirst
          rw [Option.some.injEq] at h
          obtain ⟨only, honly⟩ := List.length_eq_one_iff.mp h.symm
          intro other hother
          rw [honly, List.mem_singleton] at hother
          have hsame : only = byte := by simpa [honly] using hget
          rw [hother, hsame, hzero]
          rfl
        · rw [Option.some.injEq] at h
          have hall := (List.takeWhile_prefix isDigitByte).eq_of_length h
          exact List.takeWhile_eq_self_iff.mp hall
    have hdigits := digits_of_utf8 hbytes
    rw [utf8_digits hdigits] at h
    cases part with
    | nil => simp [numberEnd] at h
    | cons c cs =>
      refine ⟨by simp, hdigits, ?_⟩
      intro hzero
      have hc : c = '0' := Option.some.inj hzero
      rw [hc] at h ⊢
      simp [numberEnd] at h
      rw [h]
  · intro h
    obtain ⟨hne, hdigits, hleading⟩ := h
    rw [utf8_digits hdigits]
    cases part with
    | nil => exact absurd rfl hne
    | cons c cs =>
      by_cases hc : c = '0'
      · have hpart := hleading (by rw [hc]; rfl)
        rw [hpart]
        rfl
      · have hrange := isDigit_range.mp (hdigits c (by simp))
        have hnat : c.toNat ≠ 48 := by
          intro h48
          apply hc
          exact Char.toNat_inj.mp h48
        have hmod : c.toNat % 2 ^ 8 = c.toNat := Nat.mod_eq_of_lt (by omega)
        have hnonzero : UInt8.ofNat c.toNat ≠ 48 := by
          intro h48
          apply hnat
          have := congrArg UInt8.toNat h48
          rwa [UInt8.toNat_ofNat', hmod] at this
        have hbetween : (49 : UInt8) ≤ UInt8.ofNat c.toNat ∧ UInt8.ofNat c.toNat ≤ 57 := by
          rw [UInt8.le_iff_toNat_le, UInt8.le_iff_toNat_le, UInt8.toNat_ofNat', hmod]
          have h49 : (49 : UInt8).toNat = 49 := rfl
          have h57 : (57 : UInt8).toNat = 57 := rfl
          omega
        have hall : ((c :: cs).map fun c => UInt8.ofNat c.toNat).takeWhile isDigitByte =
            (c :: cs).map fun c => UInt8.ofNat c.toNat := by
          rw [List.takeWhile_eq_self_iff]
          intro byte hbyte
          obtain ⟨d, hd, rfl⟩ := List.mem_map.mp hbyte
          have hin := isDigit_range.mp (hdigits d hd)
          have hdmod : d.toNat % 2 ^ 8 = d.toNat := Nat.mod_eq_of_lt (by omega)
          simp only [isDigitByte, Bool.and_eq_true, decide_eq_true_eq, UInt8.le_iff_toNat_le,
            UInt8.toNat_ofNat', hdmod]
          exact hin
        have hfirst : ((c :: cs).map fun c => UInt8.ofNat c.toNat)[0]? =
            some (UInt8.ofNat c.toNat) := rfl
        rw [numberEnd, hfirst]
        simp only
        rw [if_neg hnonzero, if_pos hbetween, List.drop_zero, hall, Nat.zero_add]

theorem parseU32_some {part : List Char} {n : UInt32} :
    parseU32 part = some n ↔ Nat.ofDigitChars 10 part 0 = n.toNat := by
  have hvalue : part.foldl (fun n c => n * 10 + (c.toNat - 48)) 0 = Nat.ofDigitChars 10 part 0 := by
    rw [Nat.ofDigitChars_eq_foldl]
    congr 1
    funext n c
    rw [Nat.mul_comm]
    rfl
  rw [parseU32, hvalue]
  constructor
  · intro h
    split_ifs at h with hlt
    rw [← Option.some.inj h, UInt32.toNat_ofNat', Nat.mod_eq_of_lt hlt]
  · intro h
    have hlt : Nat.ofDigitChars 10 part 0 < 2 ^ 32 := by
      rw [h]
      exact n.toNat_lt
    rw [if_pos hlt, h, UInt32.ofNat_toNat]

/-- What `numbers` reads of one part. -/
theorem number_iff {part : List Char} {n : UInt32} :
    (if numberEnd (Bytes.utf8 (String.ofList part)) 0 =
        some (Bytes.utf8 (String.ofList part)).length then parseU32 part else none) = some n ↔
      IsNumber part n := by
  constructor
  · intro h
    split_ifs at h with hcanonical
    obtain ⟨hne, hdigits, hleading⟩ := canonical_iff.mp hcanonical
    exact ⟨hne, hdigits, hleading, parseU32_some.mp h⟩
  · intro h
    rw [if_pos (canonical_iff.mpr ⟨h.nonempty, h.digit, h.leading⟩)]
    exact parseU32_some.mpr h.value

theorem toDigits_leading (n : Nat) (h : (Nat.toDigits 10 n).head? = some '0') : n = 0 := by
  induction n using Nat.strong_induction_on with
  | _ n ih =>
    by_cases hlt : n < 10
    · have hdigits : ∀ m < 10, (Nat.toDigits 10 m).head? = some '0' → m = 0 := by decide
      exact hdigits n hlt h
    · rw [Nat.toDigits_of_base_le (by omega) (by omega),
        List.head?_append_of_ne_nil _ Nat.toDigits_ne_nil] at h
      have hfront := ih (n / 10) (by omega) h
      omega

theorem toString_number (n : UInt32) : IsNumber (toString n.toNat).toList n := by
  have hdigits : (toString n.toNat).toList = Nat.toDigits 10 n.toNat := Nat.toList_repr
  rw [hdigits]
  refine ⟨Nat.toDigits_ne_nil, ?_, ?_, Nat.ofDigitChars_ten_toDigits⟩
  · intro c hc
    have hdigit := Nat.isDigit_of_mem_toDigits (by omega) (by omega) hc
    simp only [Char.isDigit, Bool.and_eq_true, decide_eq_true_eq] at hdigit
    simp only [Ascii.isDigit, Bool.and_eq_true, decide_eq_true_eq]
    exact hdigit
  · intro hzero
    rw [toDigits_leading n.toNat hzero]
    rfl

theorem IsNumber.no_char {digits : List Char} {n : UInt32} (h : IsNumber digits n) {c : Char}
    (hc : Ascii.isDigit c = false) : c ∉ digits := by
  intro hmem
  rw [h.digit c hmem] at hc
  cases hc

end numbers

section versions

theorem numbers_iff {text : List Char} {x y z : UInt32} :
    numbers (String.ofList text) 3 = some [x, y, z] ↔ IsVersion text ⟨x, y, z⟩ := by
  have hback : ['.'].intercalate (text.splitOn '.') = text := List.intercalate_splitOn '.'
  unfold numbers
  simp only [String.toList_ofList]
  constructor
  · intro h
    split_ifs at h with hcount
    obtain ⟨a, b, c, hparts⟩ := List.length_eq_three.mp (not_not.mp hcount)
    rw [hparts] at h hback
    simp only [List.mapM_cons, List.mapM_nil, Option.bind_eq_bind, Option.pure_def,
      Option.bind_eq_some_iff, Option.some.injEq, List.cons.injEq] at h
    obtain ⟨x', hx, _, ⟨y', hy, _, ⟨z', hz, _, rfl, rfl⟩, rfl⟩, rfl, hrest⟩ := h
    rw [List.cons.injEq, List.cons.injEq] at hrest
    obtain ⟨rfl, rfl, -⟩ := hrest
    refine ⟨a, b, c, number_iff.mp hx, number_iff.mp hy, number_iff.mp hz, ?_⟩
    rw [← hback]
    simp [List.intercalate]
  · intro h
    obtain ⟨a, b, c, ha, hb, hc, htext⟩ := h
    have hparts : text.splitOn '.' = [a, b, c] := by
      have hjoin : text = ['.'].intercalate [a, b, c] := by
        rw [htext]
        simp [List.intercalate]
      rw [hjoin]
      apply List.splitOn_intercalate '.' _ (by simp)
      intro part hpart
      simp only [List.mem_cons, List.not_mem_nil, or_false] at hpart
      rcases hpart with rfl | rfl | rfl
      · exact ha.no_char rfl
      · exact hb.no_char rfl
      · exact hc.no_char rfl
    rw [hparts, if_neg (by simp)]
    simp only [List.mapM_cons, List.mapM_nil, Option.bind_eq_bind, Option.pure_def,
      number_iff.mpr ha, number_iff.mpr hb, number_iff.mpr hc, Option.bind_some]

/-- A version is read exactly where it stands. -/
theorem version_iff {text : List Char} {v : EngineVersion} :
    EngineVersion.parse (String.ofList text) = .ok v ↔ IsVersion text v := by
  rw [EngineVersion.parse]
  constructor
  · intro h
    split at h
    · rename_i major minor patch hnumbers
      cases h
      exact numbers_iff.mp hnumbers
    · cases h
  · intro h
    rw [numbers_iff.mpr h]

theorem show_version (v : EngineVersion) : IsVersion v.show_.toList v := by
  refine ⟨_, _, _, toString_number v.major, toString_number v.minor, toString_number v.patch, ?_⟩
  simp [EngineVersion.show_]

/-- A version starts and ends with a digit, and holds no other character than
digits and points. -/
theorem IsVersion.chars {text : List Char} {v : EngineVersion} (h : IsVersion text v) :
    ∀ c ∈ text, Ascii.isDigit c = true ∨ c = '.' := by
  obtain ⟨a, b, c, ha, hb, hc, rfl⟩ := h
  intro d hd
  simp only [List.mem_append, List.mem_cons] at hd
  rcases hd with hd | rfl | hd | rfl | hd
  · exact .inl (ha.digit d hd)
  · exact .inr rfl
  · exact .inl (hb.digit d hd)
  · exact .inr rfl
  · exact .inl (hc.digit d hd)

theorem IsVersion.nonempty {text : List Char} {v : EngineVersion} (h : IsVersion text v) :
    text ≠ [] := by
  obtain ⟨a, b, c, ha, -, -, rfl⟩ := h
  simp

theorem IsVersion.no_space {text : List Char} {v : EngineVersion} (h : IsVersion text v) :
    ∀ c ∈ text, EngineRequirement.isSpace c = false := by
  intro c hc
  rcases h.chars c hc with hdigit | hpoint
  · have hrange := isDigit_range.mp hdigit
    simp only [EngineRequirement.isSpace, beq_eq_false_iff_ne, ne_eq]
    intro hspace
    rw [hspace] at hrange
    have hcode : ' '.toNat = 32 := rfl
    omega
  · rw [hpoint]
    rfl

theorem IsVersion.no_char {text : List Char} {v : EngineVersion} (h : IsVersion text v) {c : Char}
    (hdigit : Ascii.isDigit c = false) (hpoint : c ≠ '.') : c ∉ text := by
  intro hc
  rcases h.chars c hc with h | h
  · rw [hdigit] at h
    cases h
  · exact hpoint h

end versions

section comparators

open EngineRequirement

theorem spaces_iff {text : List Char} : Spaces text ↔ ∀ c ∈ text, isSpace c = true := by
  simp [Spaces, isSpace]

/-- The operator a comparator starts with, and what follows it. -/
def leading (text : List Char) : Option (Operator × List Char) :=
  Operator.all.findSome? fun (operator, symbol) =>
    (Text.stripPrefix symbol.toList text).map fun rest => (operator, Text.trimStart isSpace rest)

theorem leading_some {text rest : List Char} {operator : Operator}
    (h : leading text = some (operator, rest)) :
    ∃ behind, text = operator.symbol.toList ++ behind ∧ rest = Text.trimStart isSpace behind := by
  obtain ⟨⟨found, symbol⟩, hmem, hfound⟩ := List.exists_of_findSome?_eq_some h
  obtain ⟨behind, hstrip, hpair⟩ := Option.map_eq_some_iff.mp hfound
  rw [Prod.mk.injEq] at hpair
  obtain ⟨rfl, hrest⟩ := hpair
  have hsymbol : symbol = found.symbol := by
    have hall : ∀ pair ∈ Operator.all, pair.2 = pair.1.symbol := by decide
    exact hall _ hmem
  rw [hsymbol] at hstrip
  exact ⟨behind, Text.stripPrefix_some.mp hstrip, hrest.symm⟩

/-- An operator is read as the one it is unless `=` follows it. -/
theorem leading_symbol {behind : List Char} (operator : Operator)
    (hbehind : ∀ c ∈ behind.head?, c ≠ '=') :
    leading (operator.symbol.toList ++ behind) =
      some (operator, Text.trimStart isSpace behind) := by
  have hsymbols : ">=".toList = ['>', '='] ∧ "<=".toList = ['<', '='] ∧
      "==".toList = ['=', '='] ∧ ">".toList = ['>'] ∧ "<".toList = ['<'] := by decide
  obtain ⟨hge, hle, heq, hgt, hlt⟩ := hsymbols
  have hlonger : Text.stripPrefix ['='] behind = none := by
    cases behind with
    | nil => rfl
    | cons d ds =>
      have hne : '=' ≠ d := (hbehind d rfl).symm
      rw [Text.stripPrefix_cons, if_neg hne]
  cases operator <;>
    simp only [leading, Operator.all, Operator.symbol, hge, hle, heq, hgt, hlt,
      List.findSome?_cons, List.cons_append, List.nil_append, Text.stripPrefix_cons,
      Text.stripPrefix_nil, hlonger, Option.map_some, Option.map_none, reduceIte, Char.reduceEq]

theorem comparator_unfold (part : List Char) : comparator part =
    if (Text.trim isSpace part).isEmpty then
      .error (say "a comma leaves an empty comparator")
    else
      match leading (Text.trim isSpace part) with
      | none =>
        .error [.quoted (String.ofList (Text.trim isSpace part)),
          .text " starts with no operator; use >=, >, <=, <, or =="]
      | some (operator, rest) =>
        match EngineVersion.parse (String.ofList rest) with
        | .ok bound => .ok (operator, bound)
        | .error _ =>
          .error [.quoted (String.ofList rest), .text " is not a MAJOR.MINOR.PATCH version"] :=
  rfl

/-- One comparator is read exactly where it stands. -/
theorem comparator_iff {part : List Char} {found : Operator × EngineVersion} :
    comparator part = .ok found ↔ IsComparator part found := by
  rw [comparator_unfold]
  constructor
  · intro h
    split_ifs at h with hempty
    cases hleading : leading (Text.trim isSpace part) with
    | none => simp [hleading] at h
    | some pair =>
      obtain ⟨operator, rest⟩ := pair
      simp only [hleading] at h
      cases hparse : EngineVersion.parse (String.ofList rest) with
      | error e => simp [hparse] at h
      | ok bound =>
        simp only [hparse, Except.ok.injEq] at h
        obtain ⟨behind, hcore, hrest⟩ := leading_some hleading
        obtain ⟨between, hbetween, hbehind⟩ := Text.trimStart_split isSpace behind
        obtain ⟨before, after, hbefore, hafter, hpart⟩ := Text.trim_split isSpace part
        refine ⟨before, between, rest, after, spaces_iff.mpr hbefore, spaces_iff.mpr hbetween,
          spaces_iff.mpr hafter, ?_, ?_⟩
        · rw [← h]
          exact version_iff.mp hparse
        · rw [hcore, hbehind, ← hrest] at hpart
          rw [← h]
          exact hpart
  · intro h
    obtain ⟨operator, bound⟩ := found
    obtain ⟨before, between, version, after, hbefore, hbetween, hafter, hversion, rfl⟩ := h
    rw [spaces_iff] at hbefore hbetween hafter
    have hbehind : ∀ c ∈ (between ++ version).head?, c ≠ '=' := by
      intro c hc hequals
      have hmem : c ∈ between ++ version := List.mem_of_head? hc
      rw [hequals, List.mem_append] at hmem
      rcases hmem with hmem | hmem
      · exact absurd (hbetween _ hmem) (by decide)
      · exact hversion.no_char (by decide) (by decide) hmem
    have htrim : Text.trim isSpace
        (before ++ (operator.symbol.toList ++ (between ++ version) ++ after)) =
          operator.symbol.toList ++ (between ++ version) := by
      have hsymbol : operator.symbol.toList ≠ [] := by cases operator <;> decide
      have hspaceless : operator.symbol.toList.head?.all (fun c => !isSpace c) = true := by
        cases operator <;> decide
      apply Text.trim_append hbefore hafter
      · rw [List.head?_append_of_ne_nil _ hsymbol]
        intro c hc
        rw [Option.mem_def.mp hc] at hspaceless
        simpa using hspaceless
      · intro c hc
        have hlast : (operator.symbol.toList ++ (between ++ version)).getLast? =
            version.getLast? := by
          rw [List.getLast?_append_of_ne_nil _ (by simp [hversion.nonempty]),
            List.getLast?_append_of_ne_nil _ hversion.nonempty]
        rw [hlast] at hc
        exact hversion.no_space c (List.mem_of_getLast? hc)
      · simp [hsymbol]
    have hrest : Text.trimStart isSpace (between ++ version) = version := by
      rw [Text.trimStart_append hbetween]
      apply Text.trimStart_of_head
      intro c hc
      exact hversion.no_space c (List.mem_of_head? hc)
    have hnonempty : (operator.symbol.toList ++ (between ++ version)).isEmpty = false := by
      cases operator <;> rfl
    rw [htrim, hnonempty, leading_symbol operator hbehind, hrest]
    simp only [version_iff.mpr hversion]
    rfl

/-- No comma stands in a comparator. -/
theorem IsComparator.no_comma {part : List Char} {found : Operator × EngineVersion}
    (h : IsComparator part found) : ',' ∉ part := by
  obtain ⟨before, between, version, after, hbefore, hbetween, hafter, hversion, rfl⟩ := h
  have hsymbol : ',' ∉ found.1.symbol.toList := by
    cases found.1 <;> decide
  have hspaces : ∀ text, Spaces text → ',' ∉ text := by
    intro text hspaces hmem
    exact absurd (hspaces ',' hmem) (by decide)
  simp only [List.mem_append, not_or]
  exact ⟨hspaces _ hbefore, ⟨hsymbol, hspaces _ hbetween, hversion.no_char rfl (by decide)⟩,
    hspaces _ hafter⟩

/-- A comparator is not all spaces. -/
theorem IsComparator.filled {part : List Char} {found : Operator × EngineVersion}
    (h : IsComparator part found) : ∃ c ∈ part, isSpace c = false := by
  obtain ⟨before, between, version, after, -, -, -, hversion, rfl⟩ := h
  obtain ⟨c, hc⟩ := List.exists_mem_of_ne_nil version hversion.nonempty
  exact ⟨c, by simp [hc], hversion.no_space c hc⟩

theorem show_comparator (operator : Operator) (bound : EngineVersion) :
    IsComparator (operator.symbol.toList ++ bound.show_.toList) (operator, bound) := by
  have hnone : Spaces [] := by
    intro c hc
    cases hc
  exact ⟨[], [], bound.show_.toList, [], hnone, hnone, hnone, show_version bound, by simp⟩

/-- A comparator may have a space before it. -/
theorem IsComparator.spaced {part : List Char} {found : Operator × EngineVersion}
    (h : IsComparator part found) : IsComparator (' ' :: part) found := by
  obtain ⟨before, between, version, after, hbefore, hbetween, hafter, hversion, rfl⟩ := h
  refine ⟨' ' :: before, between, version, after, ?_, hbetween, hafter, hversion, rfl⟩
  intro c hc
  rcases List.mem_cons.mp hc with hc | hc
  · exact hc
  · exact hbefore c hc

end comparators

section requirements

open EngineRequirement

/-- A requirement is read exactly where it stands. -/
theorem parse_iff {text : String} {r : EngineRequirement} :
    EngineRequirement.parse text = .ok r ↔ IsRequirement text r := by
  unfold EngineRequirement.parse
  constructor
  · intro h
    split_ifs at h with hempty
    cases hparts : (text.toList.splitOn ',').mapM comparator with
    | error reason => simp [hparts] at h
    | ok comparators =>
      simp only [hparts, Except.ok.injEq] at h
      refine ⟨text.toList.splitOn ',', List.splitOn_ne_nil ',' _,
        (List.intercalate_splitOn ',').symm, ?_⟩
      rw [← h]
      exact (mapM_ok.mp hparts).imp fun _ _ hread => comparator_iff.mp hread
  · intro h
    obtain ⟨parts, hne, htext, hall⟩ := h
    have hsplit : text.toList.splitOn ',' = parts := by
      rw [htext]
      apply List.splitOn_intercalate ',' _ hne
      intro part hpart
      obtain ⟨found, -, hread⟩ := forall₂_mem hall hpart
      exact hread.no_comma
    have hread : parts.mapM comparator = .ok r.comparators :=
      mapM_ok.mpr (hall.imp fun _ _ hread => comparator_iff.mpr hread)
    have hfilled : ¬ (Text.trim isSpace text.toList).isEmpty = true := by
      rw [Text.trim_isEmpty]
      intro hspaces
      obtain ⟨part, hpart⟩ := List.exists_mem_of_ne_nil parts hne
      obtain ⟨found, -, hread⟩ := forall₂_mem hall hpart
      obtain ⟨c, hc, hkept⟩ := hread.filled
      have hmem : c ∈ text.toList := by
        rw [htext]
        exact Split.mem_intercalate_of_mem hpart hc
      rw [hspaces c hmem] at hkept
      cases hkept
    rw [if_neg hfilled, hsplit, hread]

theorem intercalate_spaced (part : List Char) (parts : List (List Char)) :
    [',', ' '].intercalate (part :: parts) =
      [','].intercalate (part :: parts.map fun text => ' ' :: text) := by
  induction parts generalizing part with
  | nil => simp
  | cons next rest ih =>
    cases rest with
    | nil => simp
    | cons last rest =>
      have hnext := ih next
      rw [List.map_cons, Split.intercalate_cons ',' next (by simp)] at hnext
      rw [List.map_cons, Split.intercalate_cons ',' part (by simp), List.map_cons,
        Split.intercalate_cons ',' _ (by simp), List.intercalate_cons_cons, hnext]
      simp

/-- What a requirement shows is read as the requirement. -/
theorem show_requirement {r : EngineRequirement} (h : r.comparators ≠ []) :
    IsRequirement r.show_ r := by
  obtain ⟨comparators⟩ := r
  cases comparators with
  | nil => exact absurd rfl h
  | cons first rest =>
    let shown (found : Operator × EngineVersion) : List Char :=
      found.1.symbol.toList ++ found.2.show_.toList
    refine ⟨shown first :: (rest.map shown).map fun text => ' ' :: text, by simp, ?_, ?_⟩
    · rw [← intercalate_spaced, EngineRequirement.show_, String.toList_intercalate,
        List.map_map, ← List.map_cons]
      congr 1
      apply List.map_congr_left
      intro found _
      simp [shown]
    · refine .cons (show_comparator first.1 first.2) ?_
      rw [List.map_map, List.forall₂_map_left_iff, List.forall₂_same]
      intro found _
      exact (show_comparator found.1 found.2).spaced

theorem key_lt (a b : EngineVersion) : a.lt b = true ↔ a.key < b.key := by
  rw [EngineVersion.key, EngineVersion.key, Prod.Lex.toLex_lt_toLex, Prod.Lex.toLex_lt_toLex]
  simp only [EngineVersion.lt, Bool.or_eq_true, Bool.and_eq_true, decide_eq_true_eq, beq_iff_eq,
    UInt32.lt_iff_toNat_lt, UInt32.toNat_inj]

theorem admits_iff (operator : Operator) (version bound : EngineVersion) :
    operator.admits version bound = true ↔ operator.Asks version bound := by
  have hnot : ∀ a b : EngineVersion, (!a.lt b) = true ↔ b.key ≤ a.key := by
    intro a b
    rw [Bool.not_eq_true', ← Bool.not_eq_true, key_lt, not_lt]
  cases operator with
  | atLeast => exact hnot version bound
  | above => exact key_lt bound version
  | atMost => exact hnot bound version
  | below => exact key_lt version bound
  | exactly => exact beq_iff_eq

theorem matches_iff (r : EngineRequirement) (version : EngineVersion) :
    r.matches_ version = true ↔
      ∀ found ∈ r.comparators, found.1.Asks version found.2 := by
  simp only [EngineRequirement.matches_, List.all_eq_true, admits_iff]

end requirements

/-- A requirement is accepted exactly where it is written by the grammar, is
read as it is shown, and asks of a version what is written. -/
theorem requirement_exact :
    (∀ text r, EngineRequirement.parse text = .ok r ↔ IsRequirement text r) ∧
    (∀ text v, EngineVersion.parse text = .ok v ↔ IsVersion text.toList v) ∧
    (∀ text r, EngineRequirement.parse text = .ok r →
      EngineRequirement.parse r.show_ = .ok r ∧
        ∀ again, EngineRequirement.parse r.show_ = .ok again → again.show_ = r.show_) ∧
    ∀ text r v, EngineRequirement.parse text = .ok r →
      (r.matches_ v = true ↔ ∀ found ∈ r.comparators, found.1.Asks v found.2) := by
  refine ⟨fun text r => parse_iff, ?_, ?_, fun _ r v _ => matches_iff r v⟩
  · intro text v
    have htext := @version_iff text.toList v
    rwa [String.ofList_toList] at htext
  · intro text r h
    obtain ⟨parts, hne, -, hall⟩ := parse_iff.mp h
    have hcomparators : r.comparators ≠ [] := by
      intro hnil
      rw [hnil, List.forall₂_nil_right_iff] at hall
      exact hne hall
    have hshown := parse_iff.mpr (show_requirement hcomparators)
    refine ⟨hshown, ?_⟩
    intro again hagain
    rw [hshown] at hagain
    cases hagain
    rfl

end QuantForge.Bundle
