import QuantForge.Model.JsonValue
import QuantForge.Model.Text

namespace QuantForge

/-- What `Serialize` and `Deserialize` do with a type over JSON. -/
class Serde (α : Type) where
  serialize : α → JsonValue
  deserialize : JsonValue → Option α
  /-- What a member that a struct's JSON lacks is read as. -/
  missing : Option α

namespace Serde

variable {α : Type}

def ReadsBack (α : Type) [Serde α] : Prop :=
  ∀ a : α, deserialize (serialize a) = some a

/-- A type whose JSON is a text that is checked when it is read. -/
@[reducible] def checkedText (toText : α → String) (fromText : String → Except ModelError α) : Serde α where
  serialize a := .string (toText a)
  deserialize json := json.asStr.bind fun text => (fromText text).toOption
  missing := none

/-- The variant that a JSON value names, and what is given for it. -/
def variant : JsonValue → Option (String × Option JsonValue)
  | .string name => some (name, none)
  | .object [(name, payload)] => some (name, some payload)
  | _ => none

def isNull : JsonValue → Bool
  | .null => true
  | _ => false

/-- An enum without payloads, by the names of its variants. -/
@[reducible] def unitEnum (name : α → String) (all : List α) : Serde α where
  serialize a := .string (name a)
  deserialize json := (variant json).bind fun named =>
    if named.2.all isNull then all.find? fun a => name a == named.1 else none
  missing := none

/-- The members of a struct's JSON by name: those of an object, where none is given twice, or
of an array that lists them all in order. -/
def members (names : List String) : JsonValue → Option (String → Option JsonValue)
  | .object given =>
    if names.all fun name => (given.filter fun member => member.1 == name).length ≤ 1 then
      some fun name => given.lookup name
    else none
  | .array items =>
    if items.length = names.length then some fun name => (names.zip items).lookup name else none
  | _ => none

def readMember [Serde α] (given : String → Option JsonValue) (name : String) : Option α :=
  match given name with
  | some json => deserialize json
  | none => missing

instance [Serde α] : Serde (Option α) where
  serialize
    | none => .null
    | some a => serialize a
  deserialize
    | .null => some none
    | json => (deserialize json).map some
  missing := some none

theorem lookup_mem {given : List (String × JsonValue)} (once : (given.map Prod.fst).Nodup)
    {name : String} {json : JsonValue} (h : (name, json) ∈ given) :
    given.lookup name = some json := by
  induction given with
  | nil => cases h
  | cons member rest ih =>
    rw [List.map_cons, List.nodup_cons] at once
    cases h with
    | head => simp
    | tail _ h =>
      have hne : name ≠ member.1 := fun heq =>
        once.1 (heq ▸ List.mem_map_of_mem (f := Prod.fst) h)
      rw [List.lookup_cons, beq_eq_false_iff_ne.mpr hne]
      exact ih once.2 h

/-- The members of an object that gives each of them once. -/
theorem members_object {given : List (String × JsonValue)} (once : (given.map Prod.fst).Nodup) :
    members (given.map Prod.fst) (.object given) = some fun name => given.lookup name := by
  rw [members, if_pos]
  rw [List.all_eq_true]
  intro name _
  have hcount : (given.filter fun member => member.1 == name).length =
      (given.map Prod.fst).count name := by
    rw [List.count, List.countP_map, List.countP_eq_length_filter]
    rfl
  rw [hcount]
  simpa using List.nodup_iff_count.mp once name

/-- A member that was written is read back. -/
theorem readMember_written [Serde α] (back : ReadsBack α)
    {given : List (String × JsonValue)} (once : (given.map Prod.fst).Nodup) {name : String} {a : α}
    (h : (name, serialize a) ∈ given) :
    readMember (fun name => given.lookup name) name = some a := by
  simp only [readMember, lookup_mem once h]
  exact back a

section

variable {β : Type} {given : List (String × JsonValue)}

theorem members_bind (names : List String) (hnames : given.map Prod.fst = names)
    (once : (given.map Prod.fst).Nodup) (f : (String → Option JsonValue) → Option β) :
    (members names (.object given) >>= f) = f fun name => given.lookup name := by
  rw [← hnames, members_object once]
  rfl

theorem written_bind [Serde α] (back : ReadsBack α) (once : (given.map Prod.fst).Nodup)
    {name : String} {a : α} (h : (name, serialize a) ∈ given) (f : α → Option β) :
    (readMember (fun name => given.lookup name) name >>= f) = f a := by
  rw [readMember_written back once h]
  rfl

end

/-- A member that a struct needs was given where it was read. -/
theorem readMember_required [Serde α] {given : String → Option JsonValue} {name : String} {a : α}
    (needed : (missing : Option α) = none) (h : readMember given name = some a) :
    ∃ json, given name = some json ∧ deserialize json = some a := by
  unfold readMember at h
  cases hgiven : given name with
  | none =>
    rw [hgiven] at h
    simp only [needed] at h
    cases h
  | some json =>
    rw [hgiven] at h
    exact ⟨json, rfl, h⟩

end Serde

end QuantForge
