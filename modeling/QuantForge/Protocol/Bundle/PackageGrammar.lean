import QuantForge.Protocol.Bundle.Package
import Mathlib.Computability.Language

namespace QuantForge.Bundle

open Computability

/-- A byte string that is a number: `0`, or digits of which the first is not `0`. -/
def numeral : Language UInt8 :=
  {n | n = [48] ∨ ∃ d ds, n = d :: ds ∧ 49 ≤ d ∧ d ≤ 57 ∧ ∀ b ∈ ds, isDigitByte b = true}

/-- One of the tags, and a number. -/
def tagged (tags : List (List UInt8)) : Language UInt8 :=
  {part | ∃ tag ∈ tags, ∃ n ∈ numeral, part = tag ++ n}

/-- `N(.N)*((a|b|rc)N)?(.postN)?(.devN)?`. -/
def canonicalVersions : Language UInt8 :=
  numeral * (tagged [[46]])∗ * (1 + tagged [Bytes.utf8 "a", Bytes.utf8 "b", Bytes.utf8 "rc"]) *
    (1 + tagged [Bytes.utf8 ".post"]) * (1 + tagged [Bytes.utf8 ".dev"])

section Numbers

variable {bytes n rest : List UInt8} {start stop : Nat}

/-- No digit comes first. -/
def Undigited (bytes : List UInt8) : Prop := ∀ b ∈ bytes.head?, isDigitByte b = false

instance (bytes : List UInt8) : Decidable (Undigited bytes) :=
  inferInstanceAs (Decidable (∀ b ∈ bytes.head?, isDigitByte b = false))

theorem digit_of_lead {b : UInt8} (h : 49 ≤ b ∧ b ≤ 57) : isDigitByte b = true := by
  have hlow : (48 : UInt8) ≤ b := UInt8.le_trans (by decide) h.1
  simp [isDigitByte, hlow, h.2]

theorem numeral_digit (hn : n ∈ numeral) : ∃ d ds, n = d :: ds ∧ isDigitByte d = true := by
  rcases hn with rfl | ⟨d, ds, rfl, hlow, hhigh, -⟩
  · exact ⟨48, [], rfl, by decide⟩
  · exact ⟨d, ds, rfl, digit_of_lead ⟨hlow, hhigh⟩⟩

theorem numberEnd_numeral (h : numberEnd bytes start = some stop) :
    ∃ n ∈ numeral, bytes.drop start = n ++ bytes.drop stop := by
  unfold numberEnd at h
  cases hb : bytes[start]? with
  | none => simp [hb] at h
  | some b =>
    obtain ⟨hlt, hget⟩ := List.getElem?_eq_some_iff.mp hb
    have hcons : bytes.drop start = b :: bytes.drop (start + 1) := by
      rw [List.drop_eq_getElem_cons hlt, hget]
    simp only [hb] at h
    split_ifs at h with hzero hlead
    · rw [Option.some.injEq] at h
      refine ⟨[48], .inl rfl, ?_⟩
      rw [hcons, hzero, ← h]
      rfl
    · rw [Option.some.injEq] at h
      set run := (bytes.drop start).takeWhile isDigitByte with hrun
      have hsplit : bytes.drop start = run ++ bytes.drop stop := by
        rw [← h, ← List.drop_drop]
        have hprefix := List.takeWhile_prefix (l := bytes.drop start) isDigitByte
        exact (List.prefix_iff_eq_append.mp hprefix).symm
      refine ⟨run, .inr ⟨b, (bytes.drop (start + 1)).takeWhile isDigitByte, ?_, hlead.1, hlead.2,
        List.all_eq_true.mp List.all_takeWhile⟩, hsplit⟩
      rw [hrun, hcons, List.takeWhile_cons_of_pos (digit_of_lead hlead)]

/-- A number that no digit follows is found whole. -/
theorem numberEnd_of_numeral (hn : n ∈ numeral) (hrest : Undigited rest)
    (hdrop : bytes.drop start = n ++ rest) : numberEnd bytes start = some (start + n.length) := by
  have hget : bytes[start]? = n.head? := by
    rw [← List.head?_drop, hdrop]
    obtain ⟨d, ds, rfl, -⟩ := numeral_digit hn
    rfl
  unfold numberEnd
  rw [hget]
  rcases hn with rfl | ⟨d, ds, rfl, hlow, hhigh, hdigits⟩
  · rfl
  · have hlead : ¬ d = 48 := by
      rintro rfl
      exact absurd hlow (by decide)
    have hall : ∀ b ∈ d :: ds, isDigitByte b = true := by
      intro b hb
      rcases List.mem_cons.mp hb with rfl | hb
      · exact digit_of_lead ⟨hlow, hhigh⟩
      · exact hdigits b hb
    have hrun : (bytes.drop start).takeWhile isDigitByte = d :: ds := by
      rw [hdrop, List.takeWhile_append_of_pos hall]
      cases rest with
      | nil => simp
      | cons b rest =>
        have hb := hrest b rfl
        rw [List.takeWhile_cons_of_neg (by simp [hb]), List.append_nil]
    simp only [List.head?_cons, if_neg hlead, if_pos (And.intro hlow hhigh), hrun]

theorem drop_part {part : List UInt8} (h : bytes.drop start = part ++ rest) :
    bytes.drop (start + part.length) = rest := by
  rw [← List.drop_drop, h, List.drop_left]

end Numbers

section Releases

variable {bytes rest : List UInt8} {start stop : Nat}

/-- No release number comes first. -/
def Unreleased (bytes : List UInt8) : Prop :=
  ¬ (bytes.head? = some 46 ∧ (bytes[1]?).any isDigitByte = true)

theorem releases_found (h : releases bytes start = some stop) (hstart : start ≤ bytes.length) :
    stop ≤ bytes.length ∧
      ∃ parts ∈ (tagged [[46]])∗, bytes.drop start = parts ++ bytes.drop stop := by
  induction start using releases.induct bytes with
  | case1 start hmore next hnext ih =>
    rw [releases, if_pos hmore] at h
    split at h
    · rename_i found hfound
      rw [hnext, Option.some.injEq] at hfound
      subst hfound
      obtain ⟨n, hn, hnumber⟩ := numberEnd_numeral hnext
      obtain ⟨hstop, parts, hparts, hdrop⟩ := ih h (numberEnd_range hnext).2
      have hdot : bytes.drop start = 46 :: bytes.drop (start + 1) := by
        obtain ⟨hlt, hget⟩ := List.getElem?_eq_some_iff.mp hmore.1
        rw [List.drop_eq_getElem_cons hlt, hget]
      refine ⟨hstop, (46 :: n) ++ parts, ?_, ?_⟩
      · obtain ⟨list, hlist, hall⟩ := Language.mem_kstar.mp hparts
        rw [hlist]
        refine Language.mem_kstar.mpr ⟨(46 :: n) :: list, rfl, ?_⟩
        intro part hpart
        rcases List.mem_cons.mp hpart with rfl | hpart
        · exact ⟨[46], by simp, n, hn, rfl⟩
        · exact hall part hpart
      · rw [hdot, hnumber, hdrop, List.append_assoc]
        rfl
    · cases h
  | case2 start hmore hnone =>
    rw [releases, if_pos hmore] at h
    split at h
    · rename_i found hfound
      rw [hnone] at hfound
      cases hfound
    · cases h
  | case3 start hend =>
    rw [releases, if_neg hend, Option.some.injEq] at h
    subst h
    exact ⟨hstart, [], Language.nil_mem_kstar _, rfl⟩

/-- Release numbers are found up to what is none. -/
theorem releases_of_parts {list : List (List UInt8)} (hlist : ∀ part ∈ list, part ∈ tagged [[46]])
    (hrest : Undigited rest) (hend : Unreleased rest)
    (hdrop : bytes.drop start = list.flatten ++ rest) :
    releases bytes start = some (start + list.flatten.length) := by
  induction list generalizing start with
  | nil =>
    have hstop : ¬ (bytes[start]? = some 46 ∧ (bytes[start + 1]?).any isDigitByte = true) := by
      rw [List.flatten_nil, List.nil_append] at hdrop
      rw [← List.head?_drop, ← List.getElem?_drop, hdrop]
      exact hend
    rw [releases, if_neg hstop]
    rfl
  | cons part list ih =>
    obtain ⟨tag, htag, n, hn, rfl⟩ := hlist _ List.mem_cons_self
    rw [List.mem_singleton] at htag
    subst htag
    obtain ⟨d, ds, hlead, hdigit⟩ := numeral_digit hn
    have hdot : bytes.drop start = 46 :: (n ++ (list.flatten ++ rest)) := by
      rw [hdrop]
      simp
    have hmore : bytes[start]? = some 46 ∧ (bytes[start + 1]?).any isDigitByte = true := by
      rw [← List.head?_drop, ← List.getElem?_drop, hdot, hlead]
      exact ⟨rfl, hdigit⟩
    have hafter : bytes.drop (start + 1) = n ++ (list.flatten ++ rest) := by
      rw [← List.drop_drop, hdot]
      rfl
    have hnext : Undigited (list.flatten ++ rest) := by
      cases list with
      | nil => exact hrest
      | cons next list =>
        obtain ⟨tag, htag, m, -, rfl⟩ := hlist _ (List.mem_cons_of_mem _ List.mem_cons_self)
        rw [List.mem_singleton] at htag
        subst htag
        intro b hb
        rw [← Option.some.inj hb]
        decide
    have hnumber := numberEnd_of_numeral hn hnext hafter
    have hparts := ih (fun part h => hlist part (List.mem_cons_of_mem _ h))
      (@drop_part _ (list.flatten ++ rest) _ _ hafter)
    rw [releases, if_pos hmore]
    split
    · rename_i found hfound
      rw [hnumber, Option.some.injEq] at hfound
      rw [← hfound, hparts]
      congr 1
      simp
      omega
    · rename_i hnone
      rw [hnumber] at hnone
      cases hnone

end Releases

section Parts

/-- Parts that each may be missing, each with one of its own tags. -/
def optionals : List (List (List UInt8)) → Language UInt8
  | [] => 1
  | tags :: groups => (1 + tagged tags) * optionals groups

/-- Tags that can be told apart: none begins with a digit, and none begins another one. -/
structure Distinct (groups : List (List (List UInt8))) : Prop where
  leads : ∀ tags ∈ groups, ∀ tag ∈ tags, tag ≠ [] ∧ Undigited tag
  within_ : ∀ tags ∈ groups, ∀ s ∈ tags, ∀ t ∈ tags, s <+: t → s = t
  between : groups.Pairwise fun tags others => ∀ s ∈ tags, ∀ t ∈ others, ¬ s <+: t ∧ ¬ t <+: s

theorem Distinct.tail {tags : List (List UInt8)} {groups : List (List (List UInt8))}
    (h : Distinct (tags :: groups)) : Distinct groups where
  leads others hothers := h.leads others (List.mem_cons_of_mem _ hothers)
  within_ others hothers := h.within_ others (List.mem_cons_of_mem _ hothers)
  between := (List.pairwise_cons.mp h.between).2

variable {bytes rest : List UInt8} {tags : List (List UInt8)} {groups : List (List (List UInt8))}
  {start stop : Nat}

theorem optionals_tag {word : List UInt8} (h : word ∈ optionals groups) :
    word = [] ∨ ∃ tags ∈ groups, ∃ tag ∈ tags, tag <+: word := by
  induction groups generalizing word with
  | nil => exact .inl h
  | cons tags groups ih =>
    obtain ⟨part, hpart, others, hothers, rfl⟩ := Language.mem_mul.mp h
    rcases (Language.mem_add _ _ _).mp hpart with hnone | ⟨tag, htag, n, -, rfl⟩
    · rw [Language.mem_one] at hnone
      subst hnone
      rcases ih hothers with rfl | ⟨found, hfound, tag, htag, hprefix⟩
      · exact .inl rfl
      · exact .inr ⟨found, List.mem_cons_of_mem _ hfound, tag, htag, hprefix⟩
    · refine .inr ⟨tags, List.mem_cons_self, tag, htag, ?_⟩
      rw [List.append_assoc]
      exact List.prefix_append _ _

theorem undigited_of_prefix {tag word : List UInt8} (hne : tag ≠ []) (htag : Undigited tag)
    (h : tag <+: word) : Undigited word := by
  obtain ⟨more, rfl⟩ := h
  cases tag with
  | nil => exact absurd rfl hne
  | cons b tag => exact htag

theorem Distinct.undigited (h : Distinct groups) {word : List UInt8}
    (hword : word ∈ optionals groups) : Undigited word := by
  rcases optionals_tag hword with rfl | ⟨tags, htags, tag, htag, hprefix⟩
  · intro b hb
    cases hb
  · obtain ⟨hne, hlead⟩ := h.leads tags htags tag htag
    exact undigited_of_prefix hne hlead hprefix

/-- What may follow a part does not begin with the part's tags. -/
theorem Distinct.apart (h : Distinct (tags :: groups)) {word : List UInt8}
    (hword : word ∈ optionals groups) : ∀ tag ∈ tags, ¬ tag <+: word := by
  intro tag htag hprefix
  rcases optionals_tag hword with rfl | ⟨others, hothers, other, hother, hfound⟩
  · exact (h.leads tags List.mem_cons_self tag htag).1 (List.prefix_nil.mp hprefix)
  · obtain ⟨hno, hnone⟩ := (List.pairwise_cons.mp h.between).1 others hothers tag htag other hother
    rcases List.prefix_or_prefix_of_prefix hprefix hfound with hle | hle
    · exact hno hle
    · exact hnone hle

theorem part_found (hstart : start ≤ bytes.length) :
    ∃ found, part bytes tags start = some found ∧ ∀ stop, found = some stop →
      stop ≤ bytes.length ∧ ∃ word ∈ 1 + tagged tags, bytes.drop start = word ++ bytes.drop stop := by
  unfold part
  rw [sliceFrom_some hstart, Option.map_some]
  refine ⟨_, rfl, ?_⟩
  intro stop hstop
  split at hstop
  · rename_i tag hfind
    have hprefix := List.find?_some hfind
    obtain ⟨more, hmore⟩ := List.isPrefixOf_iff_prefix.mp hprefix
    obtain ⟨n, hn, hnumber⟩ := numberEnd_numeral hstop
    refine ⟨(numberEnd_range hstop).2, tag ++ n, ?_, ?_⟩
    · exact .inr ⟨tag, List.mem_of_find?_eq_some hfind, n, hn, rfl⟩
    · rw [drop_part hmore.symm] at hnumber
      rw [← hmore, hnumber, List.append_assoc]
  · rw [Option.some.injEq] at hstop
    subst hstop
    exact ⟨hstart, [], .inl rfl, rfl⟩

theorem part_of_word {word : List UInt8} (h : Distinct (tags :: groups))
    (hword : word ∈ 1 + tagged tags) (hrest : rest ∈ optionals groups)
    (hstart : start ≤ bytes.length) (hdrop : bytes.drop start = word ++ rest) :
    part bytes tags start = some (some (start + word.length)) := by
  unfold part
  rw [sliceFrom_some hstart, Option.map_some]
  rcases (Language.mem_add _ _ _).mp hword with hnone | ⟨tag, htag, n, hn, rfl⟩
  · rw [Language.mem_one] at hnone
    subst hnone
    rw [List.nil_append] at hdrop
    have hfind : tags.find? (fun tag => tag.isPrefixOf (bytes.drop start)) = none := by
      rw [List.find?_eq_none]
      intro tag htag hprefix
      rw [hdrop] at hprefix
      exact h.apart hrest tag htag (List.isPrefixOf_iff_prefix.mp hprefix)
    rw [hfind]
    rfl
  · have hprefix : tag <+: bytes.drop start := by
      rw [hdrop, List.append_assoc]
      exact List.prefix_append _ _
    have hfind : tags.find? (fun tag => tag.isPrefixOf (bytes.drop start)) = some tag := by
      cases hfound : tags.find? fun tag => tag.isPrefixOf (bytes.drop start) with
      | none =>
        have hnone := List.find?_eq_none.mp hfound tag htag
        exact absurd (List.isPrefixOf_iff_prefix.mpr hprefix) hnone
      | some other =>
        have hother := List.mem_of_find?_eq_some hfound
        have hfits := List.find?_some hfound
        have hbegins := List.isPrefixOf_iff_prefix.mp hfits
        have hsame := h.within_ tags List.mem_cons_self
        rcases List.prefix_or_prefix_of_prefix hprefix hbegins with hle | hle
        · rw [hsame tag htag other hother hle]
        · rw [hsame other hother tag htag hle]
    rw [List.append_assoc] at hdrop
    rw [hfind]
    dsimp only
    rw [numberEnd_of_numeral hn (h.tail.undigited hrest) (drop_part hdrop), List.length_append,
      Nat.add_assoc]

/-- The parts are told apart without going back: they end at the end of the bytes exactly
where what is left is made of them. -/
theorem partsEnd_iff (h : Distinct groups) (hstart : start ≤ bytes.length) :
    ∃ ends, partsEnd bytes groups start = some ends ∧
      (ends = true ↔ bytes.drop start ∈ optionals groups) := by
  induction groups generalizing start with
  | nil =>
    refine ⟨_, rfl, ?_⟩
    rw [beq_iff_eq, optionals, Language.mem_one, List.drop_eq_nil_iff]
    omega
  | cons tags groups ih =>
    obtain ⟨found, hpart, hfound⟩ := @part_found _ tags _ hstart
    have only (word rest : List UInt8) (hword : word ∈ 1 + tagged tags)
        (hrest : rest ∈ optionals groups) (hdrop : bytes.drop start = word ++ rest) :
        found = some (start + word.length) := by
      have hends := part_of_word h hword hrest hstart hdrop
      rw [hpart, Option.some.injEq] at hends
      exact hends
    rw [partsEnd, hpart]
    cases found with
    | none =>
      refine ⟨false, rfl, ?_⟩
      constructor
      · intro hfalse
        cases hfalse
      · intro hmem
        obtain ⟨word, hword, rest, hrest, hdrop⟩ := Language.mem_mul.mp hmem
        cases only word rest hword hrest hdrop.symm
    | some stop =>
      obtain ⟨hstop, word, hword, hdrop⟩ := hfound stop rfl
      obtain ⟨ends, hends, hiff⟩ := ih h.tail hstop
      refine ⟨ends, hends, hiff.trans ?_⟩
      constructor
      · intro hmem
        exact Language.mem_mul.mpr ⟨word, hword, _, hmem, hdrop.symm⟩
      · intro hmem
        obtain ⟨other, hother, rest, hrest, hsplit⟩ := Language.mem_mul.mp hmem
        have hat := Option.some.inj (only other rest hother hrest hsplit.symm)
        rw [hat, drop_part hsplit.symm]
        exact hrest

end Parts

theorem versionTags_distinct : Distinct versionTags where
  leads := by decide +kernel
  within_ := by decide +kernel
  between := by decide +kernel

/-- What may follow a version's release numbers begins no other one. -/
theorem unreleased_of_tags {word : List UInt8} (h : word ∈ optionals versionTags) :
    Unreleased word := by
  rintro ⟨hdot, hdigit⟩
  rcases optionals_tag h with rfl | ⟨tags, htags, tag, htag, more, rfl⟩
  · cases hdot
  · have hall : ∀ tags ∈ versionTags, ∀ tag ∈ tags, tag.head? = some 46 →
        1 < tag.length ∧ (tag[1]?).any isDigitByte = false := by decide +kernel
    have hne := (versionTags_distinct.leads tags htags tag htag).1
    have hlead : tag.head? = some 46 := by
      cases tag with
      | nil => exact absurd rfl hne
      | cons b tag => exact hdot
    obtain ⟨hlength, hnot⟩ := hall tags htags tag htag hlead
    rw [List.getElem?_append_left hlength, hnot] at hdigit
    cases hdigit

theorem canonicalVersions_eq :
    canonicalVersions = numeral * ((tagged [[46]])∗ * optionals versionTags) := by
  have hpre : tagged [Bytes.utf8 "a", Bytes.utf8 "b", Bytes.utf8 "rc"] =
      tagged [Bytes.utf8 "rc", Bytes.utf8 "a", Bytes.utf8 "b"] := by
    ext word
    show (∃ tag ∈ _, _) ↔ ∃ tag ∈ _, _
    simp only [List.mem_cons, List.not_mem_nil, or_false]
    constructor
    · rintro ⟨tag, htag, rest⟩
      exact ⟨tag, by tauto, rest⟩
    · rintro ⟨tag, htag, rest⟩
      exact ⟨tag, by tauto, rest⟩
  rw [canonicalVersions, hpre]
  simp only [versionTags, optionals, mul_one, mul_assoc]

/-- A canonical version's number, release numbers and parts. -/
theorem mem_canonicalVersions {bytes : List UInt8} :
    bytes ∈ canonicalVersions ↔ ∃ n ∈ numeral, ∃ list : List (List UInt8),
      (∀ part ∈ list, part ∈ tagged [[46]]) ∧
        ∃ rest ∈ optionals versionTags, n ++ (list.flatten ++ rest) = bytes := by
  rw [canonicalVersions_eq]
  constructor
  · intro hmem
    obtain ⟨n, hn, others, hothers, hbytes⟩ := Language.mem_mul.mp hmem
    obtain ⟨parts, hparts, rest, hrest, rfl⟩ := Language.mem_mul.mp hothers
    obtain ⟨list, rfl, hlist⟩ := Language.mem_kstar.mp hparts
    exact ⟨n, hn, list, hlist, rest, hrest, hbytes⟩
  · rintro ⟨n, hn, list, hlist, rest, hrest, hbytes⟩
    refine Language.mem_mul.mpr ⟨n, hn, list.flatten ++ rest, ?_, hbytes⟩
    exact Language.mem_mul.mpr ⟨_, Language.join_mem_kstar hlist, rest, hrest, rfl⟩

/-- The scan never leaves the bytes, and accepts exactly the canonical versions. -/
theorem canonicalVersion_iff (bytes : List UInt8) :
    isCanonicalVersion bytes ≠ none ∧
      (isCanonicalVersion bytes = some true ↔ bytes ∈ canonicalVersions) := by
  rw [mem_canonicalVersions]
  have only (n : List UInt8) (list : List (List UInt8)) (rest : List UInt8) (hn : n ∈ numeral)
      (hlist : ∀ part ∈ list, part ∈ tagged [[46]]) (hrest : rest ∈ optionals versionTags)
      (hbytes : n ++ (list.flatten ++ rest) = bytes) :
      numberEnd bytes 0 = some n.length ∧
        releases bytes n.length = some (n.length + list.flatten.length) ∧
        bytes.drop (n.length + list.flatten.length) = rest := by
    have hlead := versionTags_distinct.undigited hrest
    have hnext : Undigited (list.flatten ++ rest) := by
      cases list with
      | nil => exact hlead
      | cons part list =>
        obtain ⟨tag, htag, m, -, hpart⟩ := hlist part List.mem_cons_self
        rw [List.mem_singleton] at htag
        subst htag
        rw [List.flatten_cons, hpart]
        intro b hb
        rw [← Option.some.inj hb]
        decide
    have hstart : bytes.drop 0 = n ++ (list.flatten ++ rest) := hbytes.symm
    have hnumber := numberEnd_of_numeral hn hnext hstart
    have hafter := drop_part hstart
    rw [Nat.zero_add] at hnumber hafter
    exact ⟨hnumber, releases_of_parts hlist hlead (unreleased_of_tags hrest) hafter,
      drop_part hafter⟩
  cases hnumber : numberEnd bytes 0 with
  | none =>
    rw [isCanonicalVersion, hnumber]
    refine ⟨by simp, by simp, fun hmem => ?_⟩
    obtain ⟨n, hn, list, hlist, rest, hrest, hbytes⟩ := hmem
    rw [(only n list rest hn hlist hrest hbytes).1] at hnumber
    cases hnumber
  | some start =>
    obtain ⟨n, hn, hstart⟩ := numberEnd_numeral hnumber
    rw [List.drop_zero] at hstart
    cases hreleases : releases bytes start with
    | none =>
      simp only [isCanonicalVersion, hnumber, hreleases]
      refine ⟨by simp, by simp, fun hmem => ?_⟩
      obtain ⟨m, hm, list, hlist, rest, hrest, hbytes⟩ := hmem
      obtain ⟨hat, hall, -⟩ := only m list rest hm hlist hrest hbytes
      rw [hnumber, Option.some.injEq] at hat
      rw [hat, hall] at hreleases
      cases hreleases
    | some stop =>
      obtain ⟨hstop, parts, hparts, hdrop⟩ := releases_found hreleases (numberEnd_range hnumber).2
      obtain ⟨ends, hends, hiff⟩ := partsEnd_iff versionTags_distinct hstop
      simp only [isCanonicalVersion, hnumber, hreleases, hends]
      refine ⟨by simp, ?_⟩
      rw [Option.some.injEq, hiff]
      constructor
      · intro hrest
        obtain ⟨list, rfl, hlist⟩ := Language.mem_kstar.mp hparts
        exact ⟨n, hn, list, hlist, _, hrest, by rw [← hdrop, ← hstart]⟩
      · intro hmem
        obtain ⟨m, hm, list, hlist, rest, hrest, hbytes⟩ := hmem
        obtain ⟨hat, hall, hrests⟩ := only m list rest hm hlist hrest hbytes
        rw [hnumber, Option.some.injEq] at hat
        rw [hat, hall, Option.some.injEq] at hreleases
        rw [← hreleases, hrests]
        exact hrest

end QuantForge.Bundle
