import Mathlib.Data.List.Basic
import Mathlib.Tactic.Common

namespace QuantForge.Bytes

/-- A text's UTF-8 bytes. -/
def utf8 (s : String) : List UInt8 := s.toByteArray.data.toList

def fromUtf8 (bytes : List UInt8) : Option String := String.fromUTF8? ⟨bytes.toArray⟩

theorem utf8_injective {s t : String} (h : utf8 s = utf8 t) : s = t := by
  apply String.toByteArray_inj.mp
  exact ByteArray.ext (Array.toList_inj.mp h)

theorem fromUtf8_utf8 (s : String) : fromUtf8 (utf8 s) = some s := by
  have hs : (⟨(utf8 s).toArray⟩ : ByteArray) = s.toByteArray := by simp [utf8]
  rw [fromUtf8, hs, String.fromUTF8?, dif_pos s.isValidUTF8]
  rfl

theorem utf8_fromUtf8 {bytes : List UInt8} {s : String} (h : fromUtf8 bytes = some s) :
    utf8 s = bytes := by
  unfold fromUtf8 String.fromUTF8? at h
  split_ifs at h with hv
  rw [Option.some.injEq] at h
  subst h
  simp [utf8, String.fromUTF8]

def isAscii (s : String) : Bool := s.toList.all fun c => c.toNat < 128

/-- An ASCII text has one byte a character. -/
theorem utf8_ascii {s : String} (h : isAscii s = true) :
    utf8 s = s.toList.map fun c => UInt8.ofNat c.toNat := by
  have hs : s.toByteArray = s.toList.utf8Encode := by
    rw [← String.toByteArray_ofList, String.ofList_toList]
  rw [utf8, hs]
  unfold isAscii at h
  generalize s.toList = cs at h
  induction cs with
  | nil => rfl
  | cons c cs ih =>
    simp only [List.all_cons, Bool.and_eq_true, decide_eq_true_eq] at h
    have hc : String.utf8EncodeChar c = [UInt8.ofNat c.toNat] := by
      have hlt : c.val.toNat ≤ 127 := Nat.le_of_lt_succ h.1
      rw [String.utf8EncodeChar, if_pos hlt]
      rfl
    have ht := ih h.2
    simp only [List.utf8Encode, List.flatMap_cons, hc] at ht ⊢
    simpa using ht

/-- Lexicographic order on bytes. -/
def le : List UInt8 → List UInt8 → Bool
  | [], _ => true
  | _ :: _, [] => false
  | a :: as, b :: bs => a < b || (a == b && le as bs)

def lt (a b : List UInt8) : Bool := !le b a

theorem le_refl (a : List UInt8) : le a a = true := by
  induction a with
  | nil => rfl
  | cons a as ih => simp [le, ih]

theorem le_total (a b : List UInt8) : (le a b || le b a) = true := by
  induction a generalizing b with
  | nil => simp [le]
  | cons a as ih =>
    cases b with
    | nil => simp [le]
    | cons b bs =>
      have htail := ih bs
      simp only [le, Bool.or_eq_true, Bool.and_eq_true, decide_eq_true_eq, beq_iff_eq] at htail ⊢
      rcases Nat.lt_trichotomy a.toNat b.toNat with h | h | h
      · exact .inl (.inl h)
      · have h : a = b := UInt8.toNat_inj.mp h
        rcases htail with ht | ht
        · exact .inl (.inr ⟨h, ht⟩)
        · exact .inr (.inr ⟨h.symm, ht⟩)
      · exact .inr (.inl h)

theorem le_trans (a b c : List UInt8) (hab : le a b = true) (hbc : le b c = true) :
    le a c = true := by
  induction a generalizing b c with
  | nil => simp [le]
  | cons a as ih =>
    cases b with
    | nil => simp [le] at hab
    | cons b bs =>
      cases c with
      | nil => simp [le] at hbc
      | cons c cs =>
        simp only [le, Bool.or_eq_true, Bool.and_eq_true, decide_eq_true_eq, beq_iff_eq] at *
        rcases hab with hab | ⟨rfl, hab⟩
        · rcases hbc with hbc | ⟨rfl, hbc⟩
          · exact .inl (UInt8.lt_trans hab hbc)
          · exact .inl hab
        · rcases hbc with hbc | ⟨rfl, hbc⟩
          · exact .inl hbc
          · exact .inr ⟨rfl, ih bs cs hab hbc⟩

theorem le_antisymm (a b : List UInt8) (hab : le a b = true) (hba : le b a = true) : a = b := by
  induction a generalizing b with
  | nil =>
    cases b with
    | nil => rfl
    | cons b bs => simp [le] at hba
  | cons a as ih =>
    cases b with
    | nil => simp [le] at hab
    | cons b bs =>
      simp only [le, Bool.or_eq_true, Bool.and_eq_true, decide_eq_true_eq, beq_iff_eq] at *
      rcases hab with hab | ⟨rfl, hab⟩
      · rcases hba with hba | ⟨rfl, hba⟩
        · exact absurd (UInt8.lt_trans hab hba) (UInt8.lt_irrefl a)
        · exact absurd hab (UInt8.lt_irrefl _)
      · rcases hba with hba | ⟨-, hba⟩
        · exact absurd hba (UInt8.lt_irrefl _)
        · rw [ih bs hab hba]

theorem lt_iff (a b : List UInt8) : lt a b = true ↔ le a b = true ∧ a ≠ b := by
  constructor
  · intro h
    have hno : le b a = false := by simpa [lt] using h
    refine ⟨by simpa [hno] using le_total a b, ?_⟩
    rintro rfl
    rw [le_refl] at hno
    cases hno
  · rintro ⟨hab, hne⟩
    rw [lt, Bool.not_eq_true', ← Bool.not_eq_true]
    intro hba
    exact hne (le_antisymm a b hab hba)

end QuantForge.Bytes
