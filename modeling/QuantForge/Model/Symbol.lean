import QuantForge.Model.Trim

namespace QuantForge

def Text.toAsciiUppercase (c : Char) : Char :=
  if isAsciiLowercase c then Char.ofNat (c.toNat - 32) else c

namespace Symbol

/-- An upper-cased letter is one from `A` to `Z`, and any other character stays. -/
theorem upper_cases (c : Char) :
    (Text.isAsciiLowercase c = false ∧ Text.toAsciiUppercase c = c) ∨
      (97 ≤ c.toNat ∧ c.toNat ≤ 122 ∧ (Text.toAsciiUppercase c).toNat = c.toNat - 32) := by
  cases h : Text.isAsciiLowercase c with
  | false => exact .inl ⟨rfl, by rw [Text.toAsciiUppercase, h]; rfl⟩
  | true =>
    right
    obtain ⟨hlow, hhigh⟩ : 97 ≤ c.toNat ∧ c.toNat ≤ 122 := by
      simpa [Text.isAsciiLowercase, Char.le_def, UInt32.le_iff_toNat_le] using h
    have hvalid : (c.toNat - 32).isValidChar := .inl (by omega)
    refine ⟨hlow, hhigh, ?_⟩
    rw [Text.toAsciiUppercase, if_pos h, Char.ofNat, dif_pos hvalid]
    rfl

theorem upper_not_lower (c : Char) : Text.isAsciiLowercase (Text.toAsciiUppercase c) = false := by
  rcases upper_cases c with ⟨hlower, hsame⟩ | ⟨hlow, hhigh, hupper⟩
  · rw [hsame, hlower]
  · have hbelow : ¬ 97 ≤ (Text.toAsciiUppercase c).toNat := by omega
    simpa [Text.isAsciiLowercase, Char.le_def, UInt32.le_iff_toNat_le] using
      fun h => absurd h hbelow

theorem upper_whitespace (c : Char) :
    Text.isWhitespace (Text.toAsciiUppercase c) = Text.isWhitespace c := by
  rcases upper_cases c with ⟨_, hsame⟩ | ⟨hlow, hhigh, hupper⟩
  · rw [hsame]
  · rw [Bool.eq_iff_iff]
    simp only [Text.isWhitespace, hupper, Bool.or_eq_true, Bool.and_eq_true, decide_eq_true_eq,
      beq_iff_eq]
    omega

theorem map_upper {chars : List Char} (h : ∀ c ∈ chars, Text.isAsciiLowercase c = false) :
    chars.map Text.toAsciiUppercase = chars := by
  have hsame : chars.map Text.toAsciiUppercase = chars.map id := by
    apply List.map_congr_left
    intro c hc
    rw [Text.toAsciiUppercase, h c hc]
    rfl
  rw [hsame, List.map_id]

theorem upper_named {chars : List Char} (hne : chars ≠ [])
    (hfirst : ∀ c ∈ chars.head?, Text.isWhitespace c = false)
    (hlast : ∀ c ∈ chars.getLast?, Text.isWhitespace c = false) :
    symbolName (String.ofList (chars.map Text.toAsciiUppercase)) = true := by
  have ends (o : Option Char) (h : ∀ c ∈ o, Text.isWhitespace c = false) :
      (o.map Text.toAsciiUppercase).any Text.isWhitespace = false := by
    cases o with
    | none => rfl
    | some c => exact (upper_whitespace c).trans (h c rfl)
  simp only [symbolName, String.toList_ofList, List.head?_map, List.getLast?_map, ends _ hfirst,
    ends _ hlast]
  simp [upper_not_lower, hne]

/-- A symbol from text, in upper case and without the spaces around it. -/
def new (value : String) : Except ModelError Symbol :=
  let trimmed := Text.trim Text.isWhitespace value.toList
  if h : trimmed = [] then .error (.invalidSymbol "empty")
  else .ok
    { name := String.ofList (trimmed.map Text.toAsciiUppercase)
      named := upper_named h Text.trim_head Text.trim_last }

/-- A symbol is read back from its name. -/
theorem new_name (s : Symbol) : new s.name = .ok s := by
  have hnamed := s.named
  simp only [symbolName, Bool.and_eq_true, Bool.not_eq_true', List.all_eq_true,
    Option.any_eq_false] at hnamed
  obtain ⟨⟨⟨hne, hfirst⟩, hlast⟩, hupper⟩ := hnamed
  have htrim : Text.trim Text.isWhitespace s.name.toList = s.name.toList :=
    Text.trim_of_ends (fun c hc => by simpa using hfirst c hc) fun c hc => by simpa using hlast c hc
  have hmap := map_upper hupper
  have hfull : s.name.toList ≠ [] := by simpa using hne
  unfold new
  simp only [htrim, hmap, String.ofList_toList]
  rw [dif_neg hfull]

end Symbol

namespace Asset

theorem upper_control (c : Char) :
    Text.isControl (Text.toAsciiUppercase c) = Text.isControl c := by
  rcases Symbol.upper_cases c with ⟨_, hsame⟩ | ⟨hlow, hhigh, hupper⟩
  · rw [hsame]
  · rw [Bool.eq_iff_iff]
    simp only [Text.isControl, hupper, Bool.or_eq_true, Bool.and_eq_true, decide_eq_true_eq]
    omega

theorem upper_coded {chars : List Char} (hne : chars ≠ [])
    (hplain : chars.any (fun c => Text.isWhitespace c || Text.isControl c) = false) :
    assetCode (String.ofList (chars.map Text.toAsciiUppercase)) = true := by
  rw [List.any_eq_false] at hplain
  simp only [assetCode, String.toList_ofList, Bool.and_eq_true, List.all_eq_true]
  refine ⟨by simpa using hne, fun upper hupper => ?_⟩
  obtain ⟨c, hc, rfl⟩ := List.mem_map.mp hupper
  have hc' := hplain c hc
  simp only [Bool.or_eq_true, not_or, Bool.not_eq_true] at hc'
  rw [Symbol.upper_not_lower, Symbol.upper_whitespace, upper_control, hc'.1, hc'.2]
  exact ⟨⟨rfl, rfl⟩, rfl⟩

/-- An asset code from text, in upper case and without the spaces around it. -/
def new (value : String) : Except ModelError Asset :=
  let code := Text.trim Text.isWhitespace value.toList
  if h : code = [] ∨ code.any (fun c => Text.isWhitespace c || Text.isControl c) = true then
    .error (.invalidAsset value)
  else .ok
    { code := String.ofList (code.map Text.toAsciiUppercase)
      coded := upper_coded (not_or.mp h).1 (Bool.eq_false_iff.mpr (not_or.mp h).2) }

/-- An asset is read back from its code. -/
theorem new_code (a : Asset) : new a.code = .ok a := by
  have hcoded := a.coded
  simp only [assetCode, Bool.and_eq_true, Bool.not_eq_true', List.all_eq_true] at hcoded
  obtain ⟨hne, hall⟩ := hcoded
  have hplain (c : Char) (hc : c ∈ a.code.toList) : Text.isWhitespace c = false := (hall c hc).1.1
  have htrim : Text.trim Text.isWhitespace a.code.toList = a.code.toList :=
    Text.trim_of_ends (fun c hc => hplain c (List.mem_of_mem_head? hc)) fun c hc =>
      hplain c (List.mem_of_mem_getLast? hc)
  have hmap := Symbol.map_upper fun c hc => (hall c hc).2
  have hvalid : ¬(a.code.toList = [] ∨
      a.code.toList.any (fun c => Text.isWhitespace c || Text.isControl c) = true) := by
    rintro (hempty | hany)
    · exact absurd hne (by simpa using hempty)
    · obtain ⟨c, hc, hbad⟩ := List.any_eq_true.mp hany
      rw [hplain c hc, (hall c hc).1.2] at hbad
      cases hbad
  unfold new
  simp only [htrim, hmap, String.ofList_toList]
  rw [dif_neg hvalid]

end Asset

end QuantForge
