import Mathlib.Data.List.Basic
import Mathlib.Tactic.Common

namespace QuantForge

/-- A number as `serde_json` keeps it: a whole number of 64 bits, or a float by its bits. -/
inductive JsonNumber
  | posInt (n : UInt64)
  | negInt (n : Int64)
  | float (bits : UInt64)
  deriving DecidableEq

/-- A JSON value. An object lists its members. -/
inductive JsonValue
  | null
  | bool (flag : Bool)
  | number (n : JsonNumber)
  | string (text : String)
  | array (items : List JsonValue)
  | object (members : List (String × JsonValue))

namespace JsonValue

/-- A member of an object; nothing of any other value. -/
def get (key : String) : JsonValue → Option JsonValue
  | object members => members.lookup key
  | _ => none

def asStr : JsonValue → Option String
  | string text => some text
  | _ => none

/-- A member written among members in the order of their keys. -/
def insertMember (key : String) (value : JsonValue) :
    List (String × JsonValue) → List (String × JsonValue)
  | [] => [(key, value)]
  | member :: rest =>
    if member.1 = key then (key, value) :: rest
    else if key < member.1 then (key, value) :: member :: rest
    else member :: insertMember key value rest

/-- `state[key] = value`: a null becomes an object, and `none` is the panic of any other value
that is none. -/
def setMember (key : String) (state value : JsonValue) : Option JsonValue :=
  match state with
  | object members => some (object (insertMember key value members))
  | null => some (object [(key, value)])
  | _ => none

theorem lookup_insertMember {key : String} {value : JsonValue} {members : List (String × JsonValue)}
    (h : members.lookup key = none) : (insertMember key value members).lookup key = some value := by
  induction members with
  | nil => simp [insertMember]
  | cons member rest ih =>
    unfold insertMember
    rw [List.lookup_cons] at h
    by_cases hsame : member.1 = key
    · rw [if_pos hsame]
      simp
    · have hne : (key == member.1) = false := beq_eq_false_iff_ne.mpr (Ne.symm hsame)
      rw [hne] at h
      rw [if_neg hsame]
      by_cases hbefore : key < member.1
      · rw [if_pos hbefore]
        simp
      · rw [if_neg hbefore, List.lookup_cons, hne]
        exact ih h

/-- A written member leaves the others as they are. -/
theorem others_insertMember (key : String) (value : JsonValue) (members : List (String × JsonValue)) :
    ((insertMember key value members).filter fun member => member.1 ≠ key) =
      members.filter fun member => member.1 ≠ key := by
  induction members with
  | nil => simp [insertMember]
  | cons member rest ih =>
    unfold insertMember
    by_cases hsame : member.1 = key
    · rw [if_pos hsame]
      simp [hsame]
    · rw [if_neg hsame]
      by_cases hbefore : key < member.1
      · rw [if_pos hbefore]
        simp
      · rw [if_neg hbefore, List.filter_cons, List.filter_cons, ih]

end JsonValue

end QuantForge
