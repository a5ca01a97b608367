import Mathlib.Data.List.GetD
import QuantForge.Math.Bytes
import QuantForge.Math.Numeral
import QuantForge.Math.Split
import QuantForge.Model.Futures.ClientOrderId

namespace QuantForge.ClientOrderId

/-- Refuses an attempt outside 1 to `maxAttempt`. -/
def new (owner : OwnerTag) (epoch : ActivationEpoch) (operation : OperationId) (leg : OrderLeg)
    (attempt : UInt16) : Except ModelError ClientOrderId :=
  if h : 1 ≤ attempt.toNat ∧ attempt.toNat ≤ maxAttempt then
    .ok ⟨owner, epoch, operation, leg, attempt.toNat, h.1, h.2⟩
  else
    .error (.invalidIdentifier "order attempt" (toString attempt.toNat)
      "1 to 1295; a later attempt starts a new operation")

/-- Reads layout 1 and nothing else: the canonical spelling only. -/
def fromStr (text : String) : Except ModelError ClientOrderId :=
  match parseOurs text with
  | some id => .ok id
  | none => .error (.invalidIdentifier "client order id" text "not a layout-1 ID QuantForge issued")

/-- One digit more of a number read, unless it overflows. -/
def pushDigit (value : Nat) (c : Char) : Option Nat := do
  let digit ← digits36.idxOf? c
  if value * 36 < 2 ^ 64 ∧ value * 36 + digit < 2 ^ 64 then some (value * 36 + digit) else none

theorem fromBase36_eq (text : List Char) :
    fromBase36 text =
      if text.isEmpty || (1 < text.length && text.head? == some '0') then none
      else text.foldlM pushDigit 0 := rfl

/-- What a character is as a digit. -/
def Stands (c : Char) (d : Nat) : Prop := digits36.idxOf? c = some d

theorem stands_iff {c : Char} {d : Nat} : Stands c d ↔ d < 36 ∧ c = digits36.getD d '0' := by
  have hlen : digits36.length = 36 := by decide
  have hnodup : digits36.Nodup := by decide
  rw [Stands, List.idxOf?_eq_some_iff]
  constructor
  · intro h
    obtain ⟨hd, hget, -⟩ := h
    rw [List.getD_eq_getElem _ _ hd, hget]
    exact ⟨by omega, rfl⟩
  · intro h
    have hd : d < digits36.length := by omega
    rw [List.getD_eq_getElem _ _ hd] at h
    refine ⟨hd, h.2.symm, ?_⟩
    intro j hj hsame
    rw [h.2] at hsame
    have hindex := (List.getElem_inj hnodup).mp hsame
    omega

/-- A text's digits. -/
abbrev Numbers (text : List Char) (ds : List Nat) : Prop := List.Forall₂ Stands text ds

theorem numbers_lt {text : List Char} {ds : List Nat} (h : Numbers text ds) : ∀ d ∈ ds, d < 36 := by
  induction h with
  | nil => simp
  | cons hfirst _ ih => exact List.forall_mem_cons.mpr ⟨(stands_iff.mp hfirst).1, ih⟩

theorem numbers_text {text : List Char} {ds : List Nat} (h : Numbers text ds) :
    text = ds.map fun d => digits36.getD d '0' := by
  induction h with
  | nil => rfl
  | cons hfirst _ ih => rw [List.map_cons, ← (stands_iff.mp hfirst).2, ← ih]

theorem numbers_map {ds : List Nat} (h : ∀ d ∈ ds, d < 36) :
    Numbers (ds.map fun d => digits36.getD d '0') ds := by
  induction ds with
  | nil => exact .nil
  | cons d ds ih =>
    obtain ⟨hd, hds⟩ := List.forall_mem_cons.mp h
    exact .cons (stands_iff.mpr ⟨hd, rfl⟩) (ih hds)

theorem numbers_canonical {text : List Char} {ds : List Nat} (h : Numbers text ds) :
    (text.isEmpty || (1 < text.length && text.head? == some '0')) = false ↔
      Numeral.Canonical ds := by
  have hzero : ∀ c d, Stands c d → (c = '0' ↔ d = 0) := by
    intro c d hstands
    have hfirst : Stands '0' 0 := stands_iff.mpr (by decide)
    constructor
    · intro hc
      rw [hc] at hstands
      exact Option.some.inj (hstands.symm.trans hfirst)
    · intro hd
      rw [hd] at hstands
      rw [(stands_iff.mp hstands).2]
      decide
  cases h with
  | nil => simp [Numeral.Canonical]
  | cons hfirst hrest =>
    rename_i c d cs ds
    have hlen := hrest.length_eq
    have hsame := hzero c d hfirst
    by_cases hd : d = 0
    · have hc := hsame.mpr hd
      subst hd hc
      cases ds with
      | nil =>
        have hcs : cs = [] := List.length_eq_zero_iff.mp hlen
        simp [Numeral.Canonical, hcs]
      | cons e es =>
        have hpos : 1 < ('0' :: cs).length := by simp [hlen]
        simp only [Numeral.Canonical, List.isEmpty_cons, Bool.false_or, List.head?_cons, beq_self_eq_true,
          Bool.and_true, decide_eq_false_iff_not]
        simp [hlen]
    · have hc : c ≠ '0' := fun hc => hd (hsame.mp hc)
      simp [Numeral.Canonical, hd, hc]

theorem pushDigit_some {value n : Nat} {c : Char} :
    pushDigit value c = some n ↔ ∃ d, Stands c d ∧ n = value * 36 + d ∧ n < 2 ^ 64 := by
  simp only [pushDigit, Option.bind_eq_bind, Option.bind_eq_some_iff, Stands]
  constructor
  · intro h
    obtain ⟨d, hd, hsome⟩ := h
    split_ifs at hsome with hfits
    have hn := Option.some.inj hsome
    exact ⟨d, hd, hn.symm, by omega⟩
  · intro h
    obtain ⟨d, hd, hn, hlt⟩ := h
    exact ⟨d, hd, by rw [if_pos (by omega), hn]⟩

/-- Reading overflows exactly where the number does. -/
theorem foldlM_pushDigit {text : List Char} {acc n : Nat} (hacc : acc < 2 ^ 64) :
    text.foldlM pushDigit acc = some n ↔
      ∃ ds, Numbers text ds ∧ n = ds.foldl (fun m d => m * 36 + d) acc ∧ n < 2 ^ 64 := by
  induction text generalizing acc with
  | nil =>
    rw [List.foldlM_nil]
    constructor
    · intro h
      have hn : acc = n := Option.some.inj h
      exact ⟨[], .nil, hn.symm, by omega⟩
    · intro h
      obtain ⟨ds, hds, hn, -⟩ := h
      cases hds
      rw [hn]
      rfl
  | cons c text ih =>
    rw [List.foldlM_cons, Option.bind_eq_bind, Option.bind_eq_some_iff]
    constructor
    · intro h
      obtain ⟨next, hnext, hrest⟩ := h
      obtain ⟨d, hd, rfl, hlt⟩ := pushDigit_some.mp hnext
      obtain ⟨ds, hds, hn, hfits⟩ := (ih hlt).mp hrest
      exact ⟨d :: ds, .cons hd hds, hn, hfits⟩
    · intro h
      obtain ⟨_, hds, hn, hfits⟩ := h
      cases hds with
      | cons hd hds =>
        rename_i d ds
        rw [List.foldl_cons] at hn
        have hle := Numeral.le_foldl (by decide : 0 < 36) ds (acc * 36 + d)
        have hlt : acc * 36 + d < 2 ^ 64 := by omega
        exact ⟨acc * 36 + d, pushDigit_some.mpr ⟨d, hd, rfl, hlt⟩,
          (ih hlt).mpr ⟨ds, hds, hn, hfits⟩⟩

/-- What is read as a number: its canonical digits. -/
theorem fromBase36_some {text : List Char} {n : Nat} :
    fromBase36 text = some n ↔
      ∃ ds, Numbers text ds ∧ Numeral.Canonical ds ∧ n = Numeral.value 36 ds ∧ n < 2 ^ 64 := by
  rw [fromBase36_eq]
  constructor
  · intro h
    split_ifs at h with hbad
    obtain ⟨ds, hds, hn, hfits⟩ := (foldlM_pushDigit (by decide)).mp h
    exact ⟨ds, hds, (numbers_canonical hds).mp (by simpa using hbad), hn, hfits⟩
  · intro h
    obtain ⟨ds, hds, hcanonical, hn, hfits⟩ := h
    have hgood := (numbers_canonical hds).mpr hcanonical
    rw [hgood]
    exact (foldlM_pushDigit (by decide)).mpr ⟨ds, hds, hn, hfits⟩

theorem toBase36_eq (n : Nat) :
    toBase36 n = (Numeral.digits 36 n).map fun d => digits36.getD d '0' := by
  unfold toBase36 Numeral.digits
  split_ifs
  · rfl
  · rw [List.map_reverse]

/-- A 64-bit number reads back from its text. -/
theorem fromBase36_toBase36 {n : Nat} (h : n < 2 ^ 64) : fromBase36 (toBase36 n) = some n := by
  have hlt := Numeral.digits_lt (by decide : 1 < 36) n
  rw [toBase36_eq]
  exact fromBase36_some.mpr
    ⟨_, numbers_map hlt, Numeral.digits_canonical n, (Numeral.value_digits 36 n).symm, h⟩

/-- A number is read from its own text only. -/
theorem toBase36_fromBase36 {text : List Char} {n : Nat} (h : fromBase36 text = some n) :
    toBase36 n = text := by
  obtain ⟨ds, hds, hcanonical, rfl, -⟩ := fromBase36_some.mp h
  rw [toBase36_eq, Numeral.digits_value (by decide) (numbers_lt hds) hcanonical,
    ← numbers_text hds]

theorem toBase36_length {n len : Nat} (hlen : 0 < len) (h : n < 36 ^ len) :
    (toBase36 n).length ≤ len := by
  rw [toBase36_eq, List.length_map]
  exact Numeral.digits_length (by decide) hlen h

/-- The pieces between the dashes. -/
def parts (id : ClientOrderId) : List (List Char) :=
  [layout.toList, id.owner.text.toList, toBase36 id.epoch.get.toNat,
    toBase36 id.operation.get.toNat, id.leg.letter :: toBase36 id.attempt]

theorem letter_find {letter : Char} {leg : OrderLeg} :
    (OrderLeg.all.find? fun leg => leg.letter == letter) = some leg ↔ leg.letter = letter := by
  constructor
  · intro h
    simpa using List.find?_some h
  · intro h
    rw [← h]
    cases leg <;> rfl

theorem tag_some {valid : String → Bool} {what rule value : String} {tag : TextId valid} :
    (TextId.new what rule value : Except ModelError (TextId valid)).toOption = some tag ↔
      tag.text = value := by
  obtain ⟨text, accepted⟩ := tag
  unfold TextId.new
  constructor
  · intro h
    split_ifs at h with hvalid
    · simpa [Except.toOption] using h.symm
    · simp [Except.toOption] at h
  · intro h
    have h : text = value := h
    subst h
    rw [dif_pos accepted]
    rfl

/-- What is read as an id: its pieces, in a short enough text. -/
theorem parseOurs_some {text : String} {id : ClientOrderId} :
    parseOurs text = some id ↔
      text.toList.splitOn '-' = id.parts ∧ text.utf8ByteSize ≤ maxLen := by
  unfold parseOurs
  constructor
  · intro h
    split at h
    · rename_i first owner epoch operation legAttempt hsplit
      by_cases hbad : String.ofList first ≠ layout ∨ maxLen < text.utf8ByteSize
      · rw [if_pos hbad] at h
        cases h
      · rw [if_neg hbad] at h
        simp only [Option.bind_eq_bind, Option.bind_eq_some_iff] at h
        obtain ⟨tag, htag, number, hepoch, h⟩ := h
        by_cases hwide : 2 ^ 32 ≤ number
        · rw [if_pos hwide] at h
          cases h
        · rw [if_neg hwide] at h
          simp only [Option.bind_eq_some_iff] at h
          obtain ⟨op, hop, h⟩ := h
          cases legAttempt with
          | nil => cases h
          | cons letter attempt =>
            simp only [Option.bind_eq_some_iff] at h
            obtain ⟨leg, hleg, count, hcount, h⟩ := h
            split_ifs at h with hzero hrange
            have hid := Option.some.inj h
            rw [not_or, not_not, not_lt] at hbad
            refine ⟨?_, hbad.2⟩
            have hop64 : op < 2 ^ 64 := (fromBase36_some.mp hop).choose_spec.2.2.2
            rw [hsplit, ← hid]
            simp only [parts, UInt32.toNat_ofNat', UInt64.toNat_ofNat', Nat.mod_eq_of_lt hop64,
              Nat.mod_eq_of_lt (not_le.mp hwide), toBase36_fromBase36 hepoch,
              toBase36_fromBase36 hop, toBase36_fromBase36 hcount, letter_find.mp hleg,
              tag_some.mp htag, String.toList_ofList]
            rw [← hbad.1, String.toList_ofList]
    · cases h
  · intro h
    obtain ⟨hsplit, hlen⟩ := h
    rw [hsplit, parts]
    have hepoch64 : id.epoch.get.toNat < 2 ^ 32 := id.epoch.get.toNat_lt
    have hop64 : id.operation.get.toNat < 2 ^ 64 := id.operation.get.toNat_lt
    have hattempt := id.attempt_le
    have hfirst : ¬(String.ofList layout.toList ≠ layout ∨ maxLen < text.utf8ByteSize) := by
      simp [hlen]
    have howner : (TextId.new "owner tag" "6 of a-z and 0-9" (String.ofList id.owner.text.toList) :
        Except ModelError OwnerTag).toOption = some id.owner := tag_some.mpr (by simp)
    have hepoch := fromBase36_toBase36 (n := id.epoch.get.toNat) (by omega)
    have hop := fromBase36_toBase36 hop64
    have hcount := fromBase36_toBase36 (n := id.attempt) (by omega)
    have hleg := letter_find.mpr (rfl : id.leg.letter = id.leg.letter)
    have hrange : 1 ≤ id.attempt ∧ id.attempt ≤ maxAttempt := ⟨id.attempt_pos, hattempt⟩
    simp only [if_neg hfirst, Option.bind_eq_bind, howner, Option.bind_some, hepoch,
      if_neg (not_le.mpr hepoch64), hop, hleg, hcount, dif_pos hrange, UInt32.ofNat_toNat,
      UInt64.ofNat_toNat]
    rw [dif_pos id.operation.positive]

/-- An id's text is its pieces, joined by dashes. -/
theorem toText_parts (id : ClientOrderId) : id.toText.toList = ['-'].intercalate id.parts := by
  simp [toText, parts, List.intercalate, List.append_assoc]

theorem digit36_plain {d : Nat} (h : d < 36) :
    Text.isAsciiLowercase (digits36.getD d '0') = true ∨
      Text.isAsciiDigit (digits36.getD d '0') = true := by
  interval_cases d <;> decide

def plain (c : Char) : Bool := Text.isAsciiLowercase c || Text.isAsciiDigit c

theorem toBase36_plain (n : Nat) : ∀ c ∈ toBase36 n, plain c = true := by
  intro c hc
  rw [toBase36_eq] at hc
  obtain ⟨d, hd, rfl⟩ := List.mem_map.mp hc
  have hlt := Numeral.digits_lt (by decide : 1 < 36) n d hd
  simpa [plain] using digit36_plain hlt

theorem parts_plain (id : ClientOrderId) : ∀ part ∈ id.parts, ∀ c ∈ part, plain c = true := by
  have hlayout : layout.toList.all plain = true := by decide
  have howner : ∀ c ∈ id.owner.text.toList, plain c = true := by
    have haccepted := id.owner.accepted
    rw [Bool.and_eq_true] at haccepted
    exact List.all_eq_true.mp haccepted.2
  have hleg : plain id.leg.letter = true := by cases id.leg <;> decide
  simp only [parts, List.forall_mem_cons, List.not_mem_nil, false_imp_iff, implies_true, and_true]
  exact ⟨List.all_eq_true.mp hlayout, howner, toBase36_plain _, toBase36_plain _, hleg, toBase36_plain _⟩

theorem splitOn_toText (id : ClientOrderId) : id.toText.toList.splitOn '-' = id.parts := by
  rw [toText_parts]
  apply List.splitOn_intercalate
  · intro part hpart hdash
    have hplain := id.parts_plain part hpart '-' hdash
    revert hplain
    decide
  · simp [parts]

theorem toText_alphabet (id : ClientOrderId) :
    ∀ c ∈ id.toText.toList, plain c = true ∨ c = '-' := by
  intro c hc
  rw [toText_parts] at hc
  rcases Split.mem_intercalate hc with hdash | hpart
  · exact .inr hdash
  · obtain ⟨part, hpart, hc⟩ := hpart
    exact .inl (id.parts_plain part hpart c hc)

theorem toText_length (id : ClientOrderId) : id.toText.toList.length ≤ 36 := by
  have howner : id.owner.text.toList.length = 6 := by
    have haccepted := id.owner.accepted
    rw [Bool.and_eq_true, beq_iff_eq] at haccepted
    exact haccepted.1
  have hepoch32 : id.epoch.get.toNat < 2 ^ 32 := id.epoch.get.toNat_lt
  have hop64 : id.operation.get.toNat < 2 ^ 64 := id.operation.get.toNat_lt
  have hattempt := id.attempt_le
  have hepoch := toBase36_length (n := id.epoch.get.toNat) (by decide : 0 < 7) (by omega)
  have hop := toBase36_length (n := id.operation.get.toNat) (by decide : 0 < 13) (by omega)
  have hcount := toBase36_length (n := id.attempt) (by decide : 0 < 2) (by omega)
  have hlayout : layout.toList.length = 3 := by decide
  simp only [toText, String.toList_append, String.toList_ofList, List.length_append,
    List.length_cons, hlayout, howner]
  have hdash : "-".toList.length = 1 := by decide
  omega

theorem plain_ascii {c : Char} (h : plain c = true ∨ c = '-') : c.toNat < 128 := by
  have hle : c ≤ 'z' := by
    rcases h with h | h
    · simp only [plain, Text.isAsciiLowercase, Text.isAsciiDigit, Bool.or_eq_true, Bool.and_eq_true,
        decide_eq_true_eq] at h
      rcases h with h | h
      · exact h.2
      · exact Char.le_trans h.2 (by decide)
    · rw [h]
      decide
  have hnat : c.toNat ≤ 122 := hle
  omega

theorem toText_utf8ByteSize (id : ClientOrderId) : id.toText.utf8ByteSize ≤ 36 := by
  have hascii : Bytes.isAscii id.toText = true := by
    rw [Bytes.isAscii, List.all_eq_true]
    intro c hc
    exact decide_eq_true (plain_ascii (id.toText_alphabet c hc))
  have hbytes : id.toText.utf8ByteSize = (Bytes.utf8 id.toText).length := by
    rw [Bytes.utf8, Array.length_toList]
    rfl
  rw [hbytes, Bytes.utf8_ascii hascii, List.length_map]
  exact id.toText_length

/-- The ids are the tuples with an attempt in range. -/
theorem new_ok {owner : OwnerTag} {epoch : ActivationEpoch} {operation : OperationId}
    {leg : OrderLeg} {attempt : UInt16} {id : ClientOrderId} :
    new owner epoch operation leg attempt = .ok id ↔
      id.owner = owner ∧ id.epoch = epoch ∧ id.operation = operation ∧ id.leg = leg ∧
        id.attempt = attempt.toNat := by
  unfold new
  constructor
  · intro h
    split_ifs at h
    rw [← Except.ok.inj h]
    exact ⟨rfl, rfl, rfl, rfl, rfl⟩
  · intro h
    obtain ⟨ownOwner, ownEpoch, ownOperation, ownLeg, ownAttempt, hpos, hle⟩ := id
    obtain ⟨rfl, rfl, rfl, rfl, rfl⟩ := h
    rw [dif_pos ⟨hpos, hle⟩]

theorem fromStr_toText (id : ClientOrderId) : fromStr id.toText = .ok id := by
  have hsome := parseOurs_some.mpr ⟨id.splitOn_toText, id.toText_utf8ByteSize⟩
  rw [fromStr, hsome]

/-- An id is read from its own text only. -/
theorem fromStr_ok {text : String} {id : ClientOrderId} :
    fromStr text = .ok id ↔ text = id.toText := by
  constructor
  · intro h
    have hsome : parseOurs text = some id := by
      unfold fromStr at h
      cases hparse : parseOurs text with
      | none => simp [hparse] at h
      | some found =>
        rw [hparse] at h
        rw [Except.ok.inj h]
    obtain ⟨hsplit, -⟩ := parseOurs_some.mp hsome
    apply String.toList_inj.mp
    rw [toText_parts, ← hsplit, List.intercalate_splitOn]
  · intro h
    rw [h]
    exact id.fromStr_toText

/-- Layout 1 is a bijection between the ids and the texts that are read as
ours, which are short and of a bounded alphabet. -/
theorem layout_bijective :
    (∀ owner epoch operation leg attempt, ∀ id : ClientOrderId,
      new owner epoch operation leg attempt = .ok id ↔
        id.owner = owner ∧ id.epoch = epoch ∧ id.operation = operation ∧ id.leg = leg ∧
          id.attempt = attempt.toNat) ∧
    (∀ id : ClientOrderId, id.toText.utf8ByteSize ≤ maxLen ∧
      ∀ c ∈ id.toText.toList,
        Text.isAsciiLowercase c = true ∨ Text.isAsciiDigit c = true ∨ c = '-') ∧
    (∀ text, ∀ id : ClientOrderId, fromStr text = .ok id ↔ text = id.toText) ∧
    ∀ id other : ClientOrderId, id.toText = other.toText ↔ id = other := by
  refine ⟨fun _ _ _ _ _ _ => new_ok, ?_, fun _ _ => fromStr_ok, ?_⟩
  · intro id
    refine ⟨id.toText_utf8ByteSize, ?_⟩
    intro c hc
    have halphabet := id.toText_alphabet c hc
    rw [plain, Bool.or_eq_true, or_assoc] at halphabet
    exact halphabet
  · intro id other
    constructor
    · intro h
      have hsame := id.fromStr_toText
      rw [h, other.fromStr_toText] at hsame
      exact (Except.ok.inj hsame).symm
    · intro h
      rw [h]

end QuantForge.ClientOrderId
