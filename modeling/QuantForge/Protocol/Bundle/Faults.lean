import Mathlib.Algebra.Group.Int.Defs
import Mathlib.Data.List.Forall2
import QuantForge.Protocol.Bundle.Manifest

namespace QuantForge.Bundle

/-- What may be wrong with a manifest, and where. -/
inductive Fault
  | entry
  | engine
  | python
  | params
  | param (place : Message)
  | deps
  | depName (name : String)
  | depVersion (name : String)
  | unknown (key : String)

namespace Fault

/-- What a problem says of a fault: its code, and its place. -/
def Names : Fault → BundleProblem → Prop
  | entry, p => p.code = .entryInvalid ∨ p.code = .entryNotFound
  | engine, p => p.code = .engineInvalid
  | python, p => p.code = .pythonInvalid
  | params, p => p.code = .paramNotJson
  | param place, p => p.code = .paramNotJson ∧ place <+: p.message
  | deps, p => p.code = .dependencyInvalid
  | depName name, p | depVersion name, p =>
    p.code = .dependencyInvalid ∧ [.text "deps.", shownKey name] <+: p.message
  | unknown key, p => p.code = .manifestInvalid ∧ shownKey key ∈ p.message

end Fault

namespace Params

/-- The range of integers that every JSON reader holds. -/
def Safe (value : Int64) : Prop := -(2 ^ 53 - 1) ≤ value.toInt ∧ value.toInt ≤ 2 ^ 53 - 1

instance (value : Int64) : Decidable (Safe value) := inferInstanceAs (Decidable (_ ∧ _))

mutual

/-- A value whose leaves JSON can hold and whose tables have no reserved key, at every depth. -/
def Plain : Toml → Prop
  | .string _ | .boolean _ => True
  | .integer value => Safe value
  | .float bits => floatFinite bits = true
  | .datetime _ => False
  | .array items => PlainItems items
  | .table pairs => PlainPairs pairs

def PlainItems : List Toml → Prop
  | [] => True
  | item :: items => Plain item ∧ PlainItems items

def PlainPairs : List (String × Toml) → Prop
  | [] => True
  | (key, value) :: pairs => key.toList.head? ≠ some '$' ∧ Plain value ∧ PlainPairs pairs

end

mutual

/-- A value and the JSON that is it: the same leaves, lengths, orders and keys. -/
def Same : Toml → Json → Prop
  | .string text, .string other => text = other
  | .boolean flag, .bool other => flag = other
  | .integer value, .integer other => value = other
  | .float bits, .float other => bits = other
  | .array items, .array others => SameItems items others
  | .table pairs, .object others => SamePairs pairs others
  | _, _ => False

def SameItems : List Toml → List Json → Prop
  | [], [] => True
  | item :: items, other :: others => Same item other ∧ SameItems items others
  | _, _ => False

def SamePairs : List (String × Toml) → List (String × Json) → Prop
  | [], [] => True
  | (key, value) :: pairs, (name, other) :: others =>
    key = name ∧ Same value other ∧ SamePairs pairs others
  | _, _ => False

end

mutual

/-- The places of the keys and leaves that are refused. Nothing is looked for under a refused
key. -/
def faults (place : Message) : Toml → List Message
  | .string _ | .boolean _ => []
  | .integer value => if Safe value then [] else [place]
  | .float bits => if floatFinite bits then [] else [place]
  | .datetime _ => [place]
  | .array items => itemFaults place 0 items
  | .table pairs => pairFaults place pairs

def itemFaults (place : Message) (index : Nat) : List Toml → List Message
  | [] => []
  | item :: items =>
    faults (place ++ [.text "[", number index, .text "]"]) item ++ itemFaults place (index + 1) items

def pairFaults (place : Message) : List (String × Toml) → List Message
  | [] => []
  | (key, value) :: pairs =>
    let at_ := place ++ [.text ".", shownKey key]
    if key.toList.head? = some '$' then at_ :: pairFaults place pairs
    else faults at_ value ++ pairFaults place pairs

end

theorem safe_iff (value : Int64) : Safe value ↔ value.toInt.natAbs ≤ maxSafeInteger := by
  unfold Safe maxSafeInteger
  omega

/-- The problem that names a refused place. -/
def At (place : Message) (p : BundleProblem) : Prop := (Fault.param place).Names p

theorem notJson_at (place : Message) (reason : String) : At place (notJson place reason) :=
  ⟨rfl, List.prefix_append place _⟩

mutual

/-- A conversion reports each refused key and leaf once, in order. -/
theorem convert_faults (place : Message) : (value : Toml) →
    List.Forall₂ At (faults place value) (convert place value).2
  | .string _ => .nil
  | .boolean _ => .nil
  | .integer value => by
    unfold faults convert
    by_cases hsafe : Safe value
    · rw [if_pos hsafe, if_pos ((safe_iff value).mp hsafe)]
      exact .nil
    · rw [if_neg hsafe, if_neg (fun h => hsafe ((safe_iff value).mpr h))]
      exact .cons (notJson_at place _) .nil
  | .float bits => by
    unfold faults convert
    by_cases hfinite : floatFinite bits = true
    · rw [if_pos hfinite, if_pos hfinite]
      exact .nil
    · rw [if_neg hfinite, if_neg hfinite]
      exact .cons (notJson_at place _) .nil
  | .datetime _ => by
    unfold faults convert
    exact .cons (notJson_at place _) .nil
  | .array items => by
    unfold faults convert
    exact convertItems_faults place 0 items
  | .table pairs => by
    unfold faults convert
    exact convertTable_faults place pairs

theorem convertItems_faults (place : Message) (index : Nat) : (items : List Toml) →
    List.Forall₂ At (itemFaults place index items) (convertItems place index items).2
  | [] => .nil
  | item :: items => by
    unfold itemFaults convertItems
    exact List.rel_append (convert_faults _ item) (convertItems_faults place (index + 1) items)

theorem convertTable_faults (place : Message) : (pairs : List (String × Toml)) →
    List.Forall₂ At (pairFaults place pairs) (convertTable place pairs).2
  | [] => .nil
  | (key, value) :: pairs => by
    unfold pairFaults convertTable
    by_cases hreserved : key.toList.head? = some '$'
    · simp only [if_pos hreserved]
      exact .cons (notJson_at _ _) (convertTable_faults place pairs)
    · simp only [if_neg hreserved]
      exact List.rel_append (convert_faults _ value) (convertTable_faults place pairs)

end

mutual

/-- Nothing is reported of a plain value, and its JSON is the value. -/
theorem convert_plain (place : Message) : (value : Toml) → Plain value →
    faults place value = [] ∧ ∃ json, (convert place value).1 = some json ∧ Same value json
  | .string text, _ => ⟨rfl, .string text, rfl, rfl⟩
  | .boolean flag, _ => ⟨rfl, .bool flag, rfl, rfl⟩
  | .integer value, h => by
    have hsafe : Safe value := h
    unfold faults convert
    rw [if_pos hsafe, if_pos ((safe_iff value).mp hsafe)]
    exact ⟨rfl, .integer value, rfl, rfl⟩
  | .float bits, h => by
    have hfinite : floatFinite bits = true := h
    unfold faults convert
    rw [if_pos hfinite, if_pos hfinite]
    exact ⟨rfl, .float bits, rfl, rfl⟩
  | .datetime _, h => h.elim
  | .array items, h => by
    obtain ⟨hnone, hsame⟩ := convertItems_plain place 0 items h
    unfold faults convert
    exact ⟨hnone, _, rfl, hsame⟩
  | .table pairs, h => by
    obtain ⟨hnone, hsame⟩ := convertTable_plain place pairs h
    unfold faults convert
    exact ⟨hnone, _, rfl, hsame⟩

theorem convertItems_plain (place : Message) (index : Nat) : (items : List Toml) →
    PlainItems items → itemFaults place index items = [] ∧
      SameItems items (convertItems place index items).1
  | [], _ => ⟨rfl, trivial⟩
  | item :: items, h => by
    obtain ⟨hnone, json, hjson, hsame⟩ :=
      convert_plain (place ++ [.text "[", number index, .text "]"]) item h.1
    obtain ⟨hrest, hsames⟩ := convertItems_plain place (index + 1) items h.2
    unfold itemFaults convertItems
    simp only [hnone, hrest, hjson]
    exact ⟨rfl, hsame, hsames⟩

theorem convertTable_plain (place : Message) : (pairs : List (String × Toml)) →
    PlainPairs pairs → pairFaults place pairs = [] ∧
      SamePairs pairs (convertTable place pairs).1
  | [], _ => ⟨rfl, trivial⟩
  | (key, value) :: pairs, h => by
    obtain ⟨hfree, hplain, hpairs⟩ := h
    obtain ⟨hnone, json, hjson, hsame⟩ :=
      convert_plain (place ++ [.text ".", shownKey key]) value hplain
    obtain ⟨hrest, hsames⟩ := convertTable_plain place pairs hpairs
    unfold pairFaults convertTable
    simp only [if_neg hfree, hnone, hrest, hjson]
    exact ⟨rfl, rfl, hsame, hsames⟩

end

mutual

/-- A value of which nothing is reported is plain. -/
theorem plain_of_faults (place : Message) : (value : Toml) → faults place value = [] → Plain value
  | .string _, _ => trivial
  | .boolean _, _ => trivial
  | .integer value, h => by
    unfold faults at h
    show Safe value
    by_contra hsafe
    rw [if_neg hsafe] at h
    cases h
  | .float bits, h => by
    unfold faults at h
    show floatFinite bits = true
    by_contra hfinite
    rw [if_neg hfinite] at h
    cases h
  | .datetime _, h => by
    unfold faults at h
    cases h
  | .array items, h => plain_of_itemFaults place 0 items (by unfold faults at h; exact h)
  | .table pairs, h => plain_of_pairFaults place pairs (by unfold faults at h; exact h)

theorem plain_of_itemFaults (place : Message) (index : Nat) : (items : List Toml) →
    itemFaults place index items = [] → PlainItems items
  | [], _ => trivial
  | item :: items, h => by
    unfold itemFaults at h
    obtain ⟨hitem, hitems⟩ := List.append_eq_nil_iff.mp h
    exact ⟨plain_of_faults _ item hitem, plain_of_itemFaults place (index + 1) items hitems⟩

theorem plain_of_pairFaults (place : Message) : (pairs : List (String × Toml)) →
    pairFaults place pairs = [] → PlainPairs pairs
  | [], _ => trivial
  | (key, value) :: pairs, h => by
    unfold pairFaults at h
    by_cases hreserved : key.toList.head? = some '$'
    · simp only [if_pos hreserved] at h
      cases h
    · simp only [if_neg hreserved] at h
      obtain ⟨hvalue, hpairs⟩ := List.append_eq_nil_iff.mp h
      exact ⟨hreserved, plain_of_faults _ value hvalue, plain_of_pairFaults place pairs hpairs⟩

end

end Params

end QuantForge.Bundle
