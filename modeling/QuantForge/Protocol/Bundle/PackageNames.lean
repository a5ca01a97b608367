import QuantForge.Protocol.Bundle.PackageGrammar
import Mathlib.Data.List.Chain

namespace QuantForge.Bundle

open Computability

/-- One character of a kind. -/
def oneOf (kind : Char → Bool) : Language Char := {text | ∃ c, kind c = true ∧ text = [c]}

def nameChar (c : Char) : Bool := Ascii.isAlphanumeric c || c == '.' || c == '_' || c == '-'

/-- `[A-Za-z0-9]|[A-Za-z0-9][A-Za-z0-9._-]*[A-Za-z0-9]`. -/
def validNames : Language Char :=
  oneOf Ascii.isAlphanumeric +
    oneOf Ascii.isAlphanumeric * (oneOf nameChar)∗ * oneOf Ascii.isAlphanumeric

section Valid

theorem alphanumeric_nameChar {c : Char} (h : Ascii.isAlphanumeric c = true) :
    nameChar c = true := by simp [nameChar, h]

theorem mem_oneOf_star {kind : Char → Bool} {text : List Char} :
    text ∈ (oneOf kind)∗ ↔ ∀ c ∈ text, kind c = true := by
  constructor
  · intro h
    obtain ⟨list, rfl, hall⟩ := Language.mem_kstar.mp h
    intro c hc
    obtain ⟨word, hword, hmem⟩ := List.mem_flatten.mp hc
    obtain ⟨d, hd, rfl⟩ := hall word hword
    rw [List.mem_singleton.mp hmem]
    exact hd
  · intro h
    refine Language.mem_kstar.mpr ⟨text.map ([·]), ?_, ?_⟩
    · rw [← List.flatMap_def, List.flatMap_singleton']
    · intro word hword
      obtain ⟨c, hc, rfl⟩ := List.mem_map.mp hword
      exact ⟨c, h c hc, rfl⟩

/-- What the checks of a valid name ask of its ends and of all of it. -/
theorem isValidName_iff {name : List Char} :
    isValidName name = true ↔ (∃ c ∈ name.head?, Ascii.isAlphanumeric c = true) ∧
      (∃ c ∈ name.getLast?, Ascii.isAlphanumeric c = true) ∧ ∀ c ∈ name, nameChar c = true := by
  have any (c : Option Char) :
      edge c = true ↔ ∃ d ∈ c, Ascii.isAlphanumeric d = true := by
    cases c with
    | none => simp [edge]
    | some d => simp [edge]
  rw [isValidName, Bool.and_eq_true, Bool.and_eq_true, any, any, List.all_eq_true, and_assoc]
  rfl

theorem isValidName_mem {name : List Char} : isValidName name = true ↔ name ∈ validNames := by
  rw [isValidName_iff]
  constructor
  · rintro ⟨⟨first, hfirst, hlead⟩, ⟨last, hlast, hend⟩, hall⟩
    cases name with
    | nil => cases hfirst
    | cons c name =>
      have hc : Ascii.isAlphanumeric c = true := by
        rw [Option.some.inj hfirst]
        exact hlead
      rcases List.eq_nil_or_concat name with rfl | ⟨inner, d, rfl⟩
      · exact .inl ⟨c, hc, rfl⟩
      · rw [List.concat_eq_append, ← List.cons_append, List.getLast?_concat] at hlast
        have hd : Ascii.isAlphanumeric d = true := by
          rw [Option.some.inj hlast]
          exact hend
        refine .inr (Language.mem_mul.mpr ⟨c :: inner, ?_, [d], ⟨d, hd, rfl⟩, by simp⟩)
        refine Language.mem_mul.mpr ⟨[c], ⟨c, hc, rfl⟩, inner, mem_oneOf_star.mpr ?_, rfl⟩
        intro e he
        exact hall e (by simp [he])
  · intro h
    rcases (Language.mem_add _ _ _).mp h with ⟨c, hc, rfl⟩ | h
    · refine ⟨⟨c, rfl, hc⟩, ⟨c, rfl, hc⟩, ?_⟩
      intro d hd
      rw [List.mem_singleton.mp hd]
      exact alphanumeric_nameChar hc
    · obtain ⟨front, hfront, last, ⟨d, hd, rfl⟩, rfl⟩ := Language.mem_mul.mp h
      obtain ⟨first, ⟨c, hc, rfl⟩, inner, hinner, rfl⟩ := Language.mem_mul.mp hfront
      refine ⟨⟨c, rfl, hc⟩, ⟨d, List.getLast?_concat, hd⟩, ?_⟩
      intro e he
      simp only [List.mem_append, List.mem_singleton] at he
      rcases he with (rfl | he) | rfl
      · exact alphanumeric_nameChar hc
      · exact mem_oneOf_star.mp hinner e he
      · exact alphanumeric_nameChar hd

end Valid

section Normal

/-- Neither a capital letter nor `.` or `_`. -/
def Plain (c : Char) : Prop := Ascii.toLower c = c ∧ c ≠ '.' ∧ c ≠ '_'

/-- A name that normalizing has nothing to do on. -/
inductive Normal : List Char → Prop
  | nil : Normal []
  | snoc {name : List Char} {c : Char} : Normal name → Plain c →
      (c = '-' → name.getLast? ≠ some '-') → Normal (name ++ [c])

theorem isUpper_range {c : Char} : Ascii.isUpper c = true ↔ 65 ≤ c.toNat ∧ c.toNat ≤ 90 := by
  rw [Ascii.isUpper, Bool.and_eq_true, decide_eq_true_iff, decide_eq_true_iff]
  exact Iff.rfl

/-- A lowered capital is a small letter. -/
theorem toLower_upper {c : Char} (h : Ascii.isUpper c = true) :
    Ascii.isLower (Ascii.toLower c) = true ∧ Ascii.isUpper (Ascii.toLower c) = false ∧
      Ascii.toLower c ≠ '.' ∧ Ascii.toLower c ≠ '_' ∧ Ascii.toLower c ≠ '-' := by
  have hall : ∀ n < 91, 65 ≤ n → Ascii.isLower (Char.ofNat (n + 32)) = true ∧
      Ascii.isUpper (Char.ofNat (n + 32)) = false ∧ Char.ofNat (n + 32) ≠ '.' ∧
      Char.ofNat (n + 32) ≠ '_' ∧ Char.ofNat (n + 32) ≠ '-' := by decide
  have hrange := isUpper_range.mp h
  rw [Ascii.toLower, if_pos h]
  exact hall c.toNat (by omega) hrange.1

theorem toLower_eq_self {c : Char} : Ascii.toLower c = c ↔ Ascii.isUpper c = false := by
  constructor
  · intro h
    by_contra hupper
    rw [Bool.not_eq_false] at hupper
    have hlow := (toLower_upper hupper).2.1
    rw [h, hupper] at hlow
    cases hlow
  · intro h
    rw [Ascii.toLower, h]
    rfl

theorem toLower_toLower (c : Char) : Ascii.toLower (Ascii.toLower c) = Ascii.toLower c := by
  rw [toLower_eq_self]
  by_cases h : Ascii.isUpper c = true
  · exact (toLower_upper h).2.1
  · rw [Bool.not_eq_true] at h
    rw [toLower_eq_self.mpr h, h]

theorem normalize_concat (name : List Char) (c : Char) :
    normalize (name ++ [c]) = normalizeChar (normalize name) c := by
  simp [normalize]

theorem normalizeChar_normal {name : List Char} (c : Char) (h : Normal name) :
    Normal (normalizeChar name c) := by
  unfold normalizeChar
  split_ifs with hseparator hlast
  · exact h
  · exact .snoc h ⟨by decide, by decide, by decide⟩ fun _ => hlast
  · rw [not_or, not_or] at hseparator
    obtain ⟨hdot, hunder, hdash⟩ := hseparator
    by_cases hupper : Ascii.isUpper c = true
    · obtain ⟨-, -, hnodot, hnounder, hnodash⟩ := toLower_upper hupper
      exact .snoc h ⟨toLower_toLower c, hnodot, hnounder⟩ fun hc => absurd hc hnodash
    · rw [Bool.not_eq_true] at hupper
      rw [toLower_eq_self.mpr hupper]
      exact .snoc h ⟨toLower_eq_self.mpr hupper, hdot, hunder⟩ fun hc => absurd hc hdash

theorem normalize_normal (name : List Char) : Normal (normalize name) := by
  induction name using List.reverseRecOn with
  | nil => exact .nil
  | append_singleton name c ih =>
    rw [normalize_concat]
    exact normalizeChar_normal c ih

theorem normalize_of_normal {name : List Char} (h : Normal name) : normalize name = name := by
  induction h with
  | nil => rfl
  | @snoc name c _ hplain hdash ih =>
    rw [normalize_concat, ih, normalizeChar]
    obtain ⟨hlower, hdot, hunder⟩ := hplain
    split_ifs with hseparator hlast
    · have hc : c = '-' := by tauto
      exact absurd hlast (hdash hc)
    · have hc : c = '-' := by tauto
      rw [hc]
    · rw [hlower]

theorem normalize_idempotent (name : List Char) : normalize (normalize name) = normalize name :=
  normalize_of_normal (normalize_normal name)

theorem normal_iff {name : List Char} : Normal name ↔ normalize name = name := by
  constructor
  · exact normalize_of_normal
  · intro h
    rw [← h]
    exact normalize_normal name

/-- Two characters that are not both `-`. -/
def NotDoubled (c d : Char) : Prop := ¬ (c = '-' ∧ d = '-')

theorem normal_chain {name : List Char} :
    Normal name ↔ (∀ c ∈ name, Plain c) ∧ name.IsChain NotDoubled := by
  induction name using List.reverseRecOn with
  | nil => exact ⟨fun _ => ⟨by simp, .nil⟩, fun _ => .nil⟩
  | append_singleton name c ih =>
    rw [List.isChain_append]
    constructor
    · intro h
      obtain ⟨front, d, hsplit, hfront, hplain, hdash⟩ : ∃ front d, name ++ [c] = front ++ [d] ∧
          Normal front ∧ Plain d ∧ (d = '-' → front.getLast? ≠ some '-') := by
        generalize hall : name ++ [c] = all at h
        cases h with
        | nil => simp at hall
        | @snoc front d hfront hplain hdash => exact ⟨front, d, rfl, hfront, hplain, hdash⟩
      obtain ⟨rfl, hlast⟩ := List.append_inj' hsplit rfl
      obtain rfl := List.singleton_injective hlast
      obtain ⟨hchars, hchain⟩ := ih.mp hfront
      refine ⟨?_, hchain, .singleton _, ?_⟩
      · intro e he
        rcases List.mem_append.mp he with he | he
        · exact hchars e he
        · rw [List.mem_singleton.mp he]
          exact hplain
      · intro e he f hf hboth
        cases hf
        rw [hboth.1] at he
        exact hdash hboth.2 he
    · rintro ⟨hchars, hchain, -, hends⟩
      have hfront := ih.mpr ⟨fun e he => hchars e (by simp [he]), hchain⟩
      refine .snoc hfront (hchars c (by simp)) fun hc hlast => ?_
      exact hends '-' hlast c rfl ⟨rfl, hc⟩

theorem no_dashes {name : List Char} :
    ((name.zip name.tail).any fun pair => pair == ('-', '-')) = false ↔ name.IsChain NotDoubled := by
  induction name with
  | nil => exact ⟨fun _ => .nil, fun _ => rfl⟩
  | cons c name ih =>
    cases name with
    | nil => exact ⟨fun _ => .singleton _, fun _ => rfl⟩
    | cons d name =>
      rw [List.isChain_cons_cons, ← ih, List.tail_cons, List.zip_cons_cons, List.any_cons,
        Bool.or_eq_false_iff]
      have hpair : ((c, d) == ('-', '-')) = false ↔ NotDoubled c d := by
        rw [beq_eq_false_iff_ne, Ne, Prod.mk.injEq]
        rfl
      rw [hpair, List.tail_cons]

/-- In a valid name, the characters of a normalized one are the plain ones. -/
theorem plain_iff {c : Char} (h : nameChar c = true) :
    (Ascii.isLower c || Ascii.isDigit c || c == '-') = true ↔ Plain c := by
  rw [Plain, toLower_eq_self]
  constructor
  · intro hc
    refine ⟨?_, ?_, ?_⟩
    · by_contra hupper
      rw [Bool.not_eq_false] at hupper
      have hrange := isUpper_range.mp hupper
      simp only [Bool.or_eq_true, beq_iff_eq, Ascii.isLower, Ascii.isDigit, Bool.and_eq_true,
        decide_eq_true_eq, Char.le_def, UInt32.le_iff_toNat_le] at hc
      have hlow : ('a' : Char).val.toNat = 97 := rfl
      have hdigit : ('9' : Char).val.toNat = 57 := rfl
      rcases hc with (hc | hc) | rfl
      · have := hc.1
        rw [hlow] at this
        exact absurd hrange.2 (by show ¬ c.val.toNat ≤ 90; omega)
      · have := hc.2
        rw [hdigit] at this
        exact absurd hrange.1 (by show ¬ 65 ≤ c.val.toNat; omega)
      · exact absurd hupper (by decide)
    · rintro rfl
      exact absurd hc (by decide)
    · rintro rfl
      exact absurd hc (by decide)
  · rintro ⟨hupper, hdot, hunder⟩
    simp only [nameChar, Ascii.isAlphanumeric, Ascii.isAlphabetic, hupper, Bool.or_false,
      Bool.or_eq_true, beq_iff_eq, hdot, hunder, or_false] at h ⊢
    exact h

theorem isNormalized_iff {name : List Char} :
    isNormalized name = true ↔ isValidName name = true ∧ Normal name := by
  rw [isNormalized, Bool.and_eq_true, Bool.and_eq_true, Bool.not_eq_true', no_dashes, normal_chain,
    List.all_eq_true, and_assoc]
  apply and_congr_right
  intro hvalid
  have hall := (isValidName_iff.mp hvalid).2.2
  apply and_congr_left
  intro _
  exact forall₂_congr fun c hc => plain_iff (hall c hc)

end Normal

section Suggested

theorem toLower_alphanumeric {c : Char} (h : Ascii.isAlphanumeric c = true) :
    Ascii.isAlphanumeric (Ascii.toLower c) = true := by
  by_cases hupper : Ascii.isUpper c = true
  · simp [Ascii.isAlphanumeric, Ascii.isAlphabetic, (toLower_upper hupper).1]
  · rw [Bool.not_eq_true] at hupper
    rw [toLower_eq_self.mpr hupper]
    exact h

/-- A letter or digit is kept, made small. -/
theorem normalizeChar_alphanumeric {c : Char} (name : List Char)
    (h : Ascii.isAlphanumeric c = true) : normalizeChar name c = name ++ [Ascii.toLower c] := by
  have hseparator : ¬ (c = '.' ∨ c = '_' ∨ c = '-') := by
    rintro (rfl | rfl | rfl)
    · exact absurd h (by decide)
    · exact absurd h (by decide)
    · exact absurd h (by decide)
  rw [normalizeChar, if_neg hseparator]

theorem prefix_normalizeChar (name : List Char) (c : Char) : name <+: normalizeChar name c := by
  unfold normalizeChar
  split_ifs
  · exact List.prefix_refl name
  · exact List.prefix_append _ _
  · exact List.prefix_append _ _

theorem prefix_normalize (first : Char) (name : List Char) :
    normalizeChar [] first <+: normalize (first :: name) := by
  induction name using List.reverseRecOn with
  | nil => exact List.prefix_refl _
  | append_singleton name c ih =>
    rw [← List.cons_append, normalize_concat]
    exact ih.trans (prefix_normalizeChar _ c)

theorem normalize_nameChar {name : List Char} (h : ∀ c ∈ name, nameChar c = true) :
    ∀ c ∈ normalize name, nameChar c = true := by
  induction name using List.reverseRecOn with
  | nil =>
    intro c hc
    cases hc
  | append_singleton name d ih =>
    have hfront := ih fun c hc => h c (by simp [hc])
    have hd := h d (by simp)
    rw [normalize_concat, normalizeChar]
    intro c hc
    split_ifs at hc with hseparator hlast
    · exact hfront c hc
    · rcases List.mem_append.mp hc with hc | hc
      · exact hfront c hc
      · rw [List.mem_singleton.mp hc]
        decide
    · rcases List.mem_append.mp hc with hc | hc
      · exact hfront c hc
      · rw [List.mem_singleton.mp hc]
        have halpha : Ascii.isAlphanumeric d = true := by
          rw [not_or, not_or] at hseparator
          simpa [nameChar, hseparator] using hd
        exact alphanumeric_nameChar (toLower_alphanumeric halpha)

theorem normalize_valid {name : List Char} (h : isValidName name = true) :
    isValidName (normalize name) = true := by
  obtain ⟨⟨first, hfirst, hlead⟩, ⟨last, hlast, hend⟩, hall⟩ := isValidName_iff.mp h
  refine isValidName_iff.mpr ⟨?_, ?_, normalize_nameChar hall⟩
  · cases name with
    | nil => cases hfirst
    | cons c name =>
      obtain rfl := Option.some.inj hfirst
      obtain ⟨more, hmore⟩ := prefix_normalize c name
      rw [normalizeChar_alphanumeric [] hlead] at hmore
      rw [← hmore]
      exact ⟨_, rfl, toLower_alphanumeric hlead⟩
  · rcases List.eq_nil_or_concat name with rfl | ⟨front, d, rfl⟩
    · cases hlast
    · rw [List.concat_eq_append, List.getLast?_concat] at hlast
      obtain rfl := Option.some.inj hlast
      rw [List.concat_eq_append, normalize_concat, normalizeChar_alphanumeric _ hend]
      exact ⟨_, List.getLast?_concat, toLower_alphanumeric hend⟩

theorem new_ok_iff {name : String} :
    (∃ package, PackageName.new name = .ok package) ↔ isNormalized name.toList = true := by
  unfold PackageName.new
  split_ifs with hnormal hvalid
  · exact ⟨fun _ => hnormal, fun _ => ⟨_, rfl⟩⟩
  · exact ⟨nofun, fun h => absurd h hnormal⟩
  · exact ⟨nofun, fun h => absurd h hnormal⟩

end Suggested

/-- Versions are scanned by their grammar and never out of range; names are accepted exactly
as they are normalized, and a refusal suggests what is accepted. -/
theorem pins_canonical :
    (∀ bytes, isCanonicalVersion bytes ≠ none ∧
        (isCanonicalVersion bytes = some true ↔ bytes ∈ canonicalVersions)) ∧
      (∀ name : String, (∃ package, PackageName.new name = .ok package) ↔
        name.toList ∈ validNames ∧ normalize name.toList = name.toList) ∧
      (∀ name input reason suggestion,
        PackageName.new name = .error (.invalidPackageName input reason) →
          Piece.quoted suggestion ∈ reason →
            ∃ package, PackageName.new suggestion = .ok package) ∧
      ∀ name, normalize (normalize name) = normalize name := by
  refine ⟨canonicalVersion_iff, ?_, ?_, normalize_idempotent⟩
  · intro name
    rw [new_ok_iff, isNormalized_iff, isValidName_mem, normal_iff]
  · intro name input reason suggestion hnew hquoted
    unfold PackageName.new at hnew
    split_ifs at hnew with hnormal hvalid
    · rw [Except.error.injEq, ProtocolError.invalidPackageName.injEq] at hnew
      rw [← hnew.2] at hquoted
      have hsuggestion : suggestion = String.ofList (normalize name.toList) := by
        simpa using hquoted
      rw [new_ok_iff, isNormalized_iff, hsuggestion, String.toList_ofList]
      exact ⟨normalize_valid hvalid, normalize_normal _⟩
    · rw [Except.error.injEq, ProtocolError.invalidPackageName.injEq] at hnew
      rw [← hnew.2] at hquoted
      simp [say] at hquoted

end QuantForge.Bundle
