import QuantForge.Model.JsonValue

namespace QuantForge

/-- One step into a JSON value: to an object's member, or to an array's item. -/
inductive JsonStep
  | key (name : String)
  | item (index : Nat)
  deriving DecidableEq

/-- What a JSON value is, apart from what its members and items hold. -/
inductive JsonHead
  | null
  | bool (flag : Bool)
  | number (n : JsonNumber)
  | string (text : String)
  | array (length : Nat)
  | object (keys : List String)
  deriving DecidableEq

namespace JsonValue

def head : JsonValue → JsonHead
  | null => .null
  | bool flag => .bool flag
  | number n => .number n
  | string text => .string text
  | array items => .array items.length
  | object members => .object (members.map Prod.fst)

def child : JsonStep → JsonValue → Option JsonValue
  | .key name, object members => members.lookup name
  | .item index, array items => items[index]?
  | _, _ => none

/-- The head of what stands at a path. Two documents with the same heads at every path are the
same document. -/
def headAt : List JsonStep → JsonValue → Option JsonHead
  | [], value => some value.head
  | step :: path, value => (child step value).bind (headAt path)

/-- A member that is there, given another value. -/
def replaceMember (key : String) (value : JsonValue) (members : List (String × JsonValue)) :
    List (String × JsonValue) :=
  members.map fun member => if member.1 = key then (key, value) else member

theorem replaceMember_keys (key : String) (value : JsonValue)
    (members : List (String × JsonValue)) :
    (replaceMember key value members).map Prod.fst = members.map Prod.fst := by
  induction members with
  | nil => rfl
  | cons member rest ih =>
    have hrest : ((replaceMember key value rest).map Prod.fst) = rest.map Prod.fst := ih
    have hhead : (if member.1 = key then (key, value) else member).1 = member.1 := by
      by_cases h : member.1 = key
      · rw [if_pos h, h]
      · rw [if_neg h]
    rw [replaceMember, List.map_cons, List.map_cons, List.map_cons, hhead]
    exact congrArg _ hrest

theorem lookup_replaceMember {key : String} {value old : JsonValue}
    {members : List (String × JsonValue)} (h : members.lookup key = some old) :
    (replaceMember key value members).lookup key = some value := by
  induction members with
  | nil => cases h
  | cons member rest ih =>
    rw [replaceMember, List.map_cons]
    by_cases hsame : member.1 = key
    · rw [if_pos hsame]
      simp
    · have hne : (key == member.1) = false := beq_eq_false_iff_ne.mpr (Ne.symm hsame)
      rw [if_neg hsame, List.lookup_cons, hne]
      rw [List.lookup_cons, hne] at h
      exact ih h

theorem lookup_replaceMember_ne {key name : String} (hne : name ≠ key) (value : JsonValue)
    (members : List (String × JsonValue)) :
    (replaceMember key value members).lookup name = members.lookup name := by
  induction members with
  | nil => rfl
  | cons member rest ih =>
    have hrest : (replaceMember key value rest).lookup name = rest.lookup name := ih
    rw [replaceMember, List.map_cons]
    by_cases hsame : member.1 = key
    · rw [if_pos hsame, List.lookup_cons, List.lookup_cons, hsame, beq_eq_false_iff_ne.mpr hne]
      exact hrest
    · rw [if_neg hsame, List.lookup_cons, List.lookup_cons]
      cases name == member.1 with
      | true => rfl
      | false => exact hrest

end JsonValue

/-- The number at a path has become its text. -/
def JsonHead.reworded (text : JsonNumber → String) : JsonHead → JsonHead
  | .number n => .string (text n)
  | head => head

/-- A document and the one that was made of it by turning the numbers at some paths into text:
whether there was any such number, and nothing else differs. -/
structure Rewording (text : JsonNumber → String) (chosen : List JsonStep → Prop)
    (old new : JsonValue) (changed : Bool) : Prop where
  turned : ∀ path, chosen path → new.headAt path = (old.headAt path).map (JsonHead.reworded text)
  kept : ∀ path, ¬ chosen path → new.headAt path = old.headAt path
  any : changed = true ↔ ∃ path n, chosen path ∧ old.headAt path = some (.number n)

namespace Rewording

variable {text : JsonNumber → String} {chosen : List JsonStep → Prop} {old new : JsonValue}
  {changed : Bool}

/-- Where there is no number at the paths, nothing changes. -/
theorem refl (h : ∀ path n, chosen path → old.headAt path ≠ some (.number n)) :
    Rewording text chosen old old false := by
  constructor
  · intro path hchosen
    cases hhead : old.headAt path with
    | none => rfl
    | some head =>
      cases head with
      | number n => exact absurd hhead (h path n hchosen)
      | _ => rfl
  · intro path _
    rfl
  · constructor
    · intro hfalse
      cases hfalse
    · intro hsome
      obtain ⟨path, n, hchosen, hhead⟩ := hsome
      exact absurd hhead (h path n hchosen)

theorem number (n : JsonNumber) :
    Rewording text (· = []) (.number n) (.string (text n)) true := by
  constructor
  · intro path hchosen
    rw [hchosen]
    rfl
  · intro path hchosen
    cases path with
    | nil => exact absurd rfl hchosen
    | cons step path => cases step <;> rfl
  · exact ⟨fun _ => ⟨[], n, rfl, rfl⟩, fun _ => rfl⟩

/-- The same change by way of a member. -/
theorem member {key : String} {members : List (String × JsonValue)}
    (hfound : members.lookup key = some old) (h : Rewording text chosen old new changed) :
    Rewording text (fun path => ∃ rest, path = .key key :: rest ∧ chosen rest) (.object members)
      (.object (JsonValue.replaceMember key new members)) changed := by
  constructor
  · intro path hchosen
    obtain ⟨rest, hpath, hrest⟩ := hchosen
    rw [hpath]
    show (List.lookup key _).bind _ = ((members.lookup key).bind _).map _
    rw [JsonValue.lookup_replaceMember hfound, hfound]
    exact h.turned rest hrest
  · intro path hchosen
    cases path with
    | nil =>
      show some (JsonHead.object _) = some (JsonHead.object _)
      rw [JsonValue.replaceMember_keys]
    | cons step rest =>
      cases step with
      | item index => rfl
      | key name =>
        show (List.lookup name _).bind _ = (members.lookup name).bind _
        by_cases hname : name = key
        · rw [hname, JsonValue.lookup_replaceMember hfound, hfound]
          exact h.kept rest fun hrest => hchosen ⟨rest, by rw [hname], hrest⟩
        · rw [JsonValue.lookup_replaceMember_ne hname]
  · rw [h.any]
    constructor
    · intro hsome
      obtain ⟨path, n, hchosen, hhead⟩ := hsome
      refine ⟨.key key :: path, n, ⟨path, rfl, hchosen⟩, ?_⟩
      show (members.lookup key).bind _ = _
      rw [hfound]
      exact hhead
    · intro hsome
      obtain ⟨path, n, ⟨rest, hpath, hchosen⟩, hhead⟩ := hsome
      refine ⟨rest, n, hchosen, ?_⟩
      rw [hpath] at hhead
      have hmember : (members.lookup key).bind (JsonValue.headAt rest) = some (.number n) := hhead
      rw [hfound] at hmember
      exact hmember

/-- The same change of every item of an array. -/
theorem items {olds : List JsonValue} {change : JsonValue → JsonValue × Bool}
    (h : ∀ old ∈ olds, Rewording text chosen old (change old).1 (change old).2) :
    Rewording text (fun path => ∃ index rest, path = .item index :: rest ∧ chosen rest)
      (.array olds) (.array (olds.map fun old => (change old).1))
      (olds.any fun old => (change old).2) := by
  have hitem (index : Nat) (rest : List JsonStep) :
      (JsonValue.array (olds.map fun old => (change old).1)).headAt (.item index :: rest) =
        olds[index]?.bind fun old => (change old).1.headAt rest := by
    show ((olds.map fun old => (change old).1)[index]?).bind _ = _
    rw [List.getElem?_map, Option.bind_map]
    rfl
  constructor
  · intro path hchosen
    obtain ⟨index, rest, hpath, hrest⟩ := hchosen
    rw [hpath, hitem]
    show _ = (olds[index]?.bind _).map _
    cases hold : olds[index]? with
    | none => rfl
    | some old => exact (h old (List.mem_of_getElem? hold)).turned rest hrest
  · intro path hchosen
    cases path with
    | nil =>
      show some (JsonHead.array _) = some (JsonHead.array _)
      rw [List.length_map]
    | cons step rest =>
      cases step with
      | key name => rfl
      | item index =>
        rw [hitem]
        show _ = olds[index]?.bind _
        cases hold : olds[index]? with
        | none => rfl
        | some old =>
          exact (h old (List.mem_of_getElem? hold)).kept rest fun hrest =>
            hchosen ⟨index, rest, rfl, hrest⟩
  · rw [List.any_eq_true]
    constructor
    · intro hsome
      obtain ⟨old, hmem, hchanged⟩ := hsome
      obtain ⟨index, hindex⟩ := List.getElem?_of_mem hmem
      obtain ⟨path, n, hchosen, hhead⟩ := (h old hmem).any.mp hchanged
      refine ⟨.item index :: path, n, ⟨index, path, rfl, hchosen⟩, ?_⟩
      show olds[index]?.bind _ = _
      rw [hindex]
      exact hhead
    · intro hsome
      obtain ⟨path, n, ⟨index, rest, hpath, hchosen⟩, hhead⟩ := hsome
      rw [hpath] at hhead
      have hbind : olds[index]?.bind (JsonValue.headAt rest) = some (.number n) := hhead
      obtain ⟨old, hold, hrest⟩ := Option.bind_eq_some_iff.mp hbind
      have hmem := List.mem_of_getElem? hold
      exact ⟨old, hmem, (h old hmem).any.mpr ⟨rest, n, hchosen, hrest⟩⟩

/-- Two changes, one after the other. -/
theorem trans {next : JsonValue} {others : List JsonStep → Prop} {again : Bool}
    (h : Rewording text chosen old new changed) (hnext : Rewording text others new next again) :
    Rewording text (fun path => chosen path ∨ others path) old next (changed || again) := by
  have twice (head : Option JsonHead) :
      (head.map (JsonHead.reworded text)).map (JsonHead.reworded text) =
        head.map (JsonHead.reworded text) := by
    cases head with
    | none => rfl
    | some head => cases head <;> rfl
  constructor
  · intro path hchosen
    by_cases hfirst : chosen path
    · by_cases hsecond : others path
      · rw [hnext.turned path hsecond, h.turned path hfirst, twice]
      · rw [hnext.kept path hsecond, h.turned path hfirst]
    · rw [hnext.turned path (hchosen.resolve_left hfirst), h.kept path hfirst]
  · intro path hchosen
    rw [hnext.kept path fun hsecond => hchosen (.inr hsecond),
      h.kept path fun hfirst => hchosen (.inl hfirst)]
  · rw [Bool.or_eq_true, h.any, hnext.any]
    constructor
    · intro hor
      cases hor with
      | inl hsome =>
        obtain ⟨path, n, hchosen, hhead⟩ := hsome
        exact ⟨path, n, .inl hchosen, hhead⟩
      | inr hsome =>
        obtain ⟨path, n, hchosen, hhead⟩ := hsome
        refine ⟨path, n, .inr hchosen, ?_⟩
        by_cases hfirst : chosen path
        · rw [h.turned path hfirst] at hhead
          obtain ⟨head, _, hreworded⟩ := Option.map_eq_some_iff.mp hhead
          cases head <;> cases hreworded
        · rw [h.kept path hfirst] at hhead
          exact hhead
    · intro hsome
      obtain ⟨path, n, hchosen, hhead⟩ := hsome
      by_cases hfirst : chosen path
      · exact .inl ⟨path, n, hfirst, hhead⟩
      · exact .inr ⟨path, n, hchosen.resolve_left hfirst, by rw [h.kept path hfirst, hhead]⟩

/-- The paths of a change by another name. -/
theorem chosen_iff {others : List JsonStep → Prop} (hsame : ∀ path, chosen path ↔ others path)
    (h : Rewording text chosen old new changed) : Rewording text others old new changed := by
  have heq : chosen = others := funext fun path => propext (hsame path)
  rw [← heq]
  exact h

/-- No number is left at the paths. -/
theorem none_left (h : Rewording text chosen old new changed) {path : List JsonStep}
    (hchosen : chosen path)
    (n : JsonNumber) : new.headAt path ≠ some (.number n) := by
  intro hhead
  rw [h.turned path hchosen] at hhead
  obtain ⟨head, _, hreworded⟩ := Option.map_eq_some_iff.mp hhead
  cases head <;> cases hreworded

end Rewording

/-- What `serde_json` does with text. A float is printed as `floatText`, and `reread` is the
float that is read from that text, which need not be the one that was printed. -/
class JsonText where
  parse : String → Except String JsonValue
  print : JsonValue → String
  floatText : UInt64 → String
  reread : UInt64 → UInt64

/-- A number's decimal text. -/
def JsonNumber.text [JsonText] : JsonNumber → String
  | .posInt n => toString n.toNat
  | .negInt n => toString n.toInt
  | .float bits => JsonText.floatText bits

/-- Whether a number is a whole number of 64 bits. -/
def JsonNumber.isWhole : JsonNumber → Bool
  | .float _ => false
  | _ => true

def JsonNumber.mapFloat (f : UInt64 → UInt64) : JsonNumber → JsonNumber
  | .float bits => .float (f bits)
  | n => n

def JsonHead.mapFloat (f : UInt64 → UInt64) : JsonHead → JsonHead
  | .number n => .number (n.mapFloat f)
  | head => head

namespace JsonValue

variable (f : UInt64 → UInt64)

mutual

/-- A value with each float in it changed. -/
def mapFloats : JsonValue → JsonValue
  | number n => number (n.mapFloat f)
  | array items => array (mapItems items)
  | object members => object (mapMembers members)
  | value => value

def mapItems : List JsonValue → List JsonValue
  | [] => []
  | item :: rest => mapFloats item :: mapItems rest

def mapMembers : List (String × JsonValue) → List (String × JsonValue)
  | [] => []
  | (key, value) :: rest => (key, mapFloats value) :: mapMembers rest

end

theorem mapItems_eq (items : List JsonValue) : mapItems f items = items.map (mapFloats f) := by
  induction items with
  | nil => rfl
  | cons item rest ih => rw [mapItems, ih, List.map_cons]

theorem mapMembers_eq (members : List (String × JsonValue)) :
    mapMembers f members = members.map fun member => (member.1, mapFloats f member.2) := by
  induction members with
  | nil => rfl
  | cons member rest ih => rw [mapMembers, ih, List.map_cons]

theorem lookup_mapMembers (key : String) (members : List (String × JsonValue)) :
    (mapMembers f members).lookup key = (members.lookup key).map (mapFloats f) := by
  induction members with
  | nil => rfl
  | cons member rest ih =>
    rw [mapMembers, List.lookup_cons, List.lookup_cons]
    cases key == member.1 with
    | true => rfl
    | false => exact ih

theorem head_mapFloats (value : JsonValue) : (mapFloats f value).head = value.head.mapFloat f := by
  cases value with
  | array items =>
    rw [mapFloats, mapItems_eq]
    show JsonHead.array _ = .array _
    rw [List.length_map]
  | object members =>
    rw [mapFloats, mapMembers_eq]
    show JsonHead.object _ = .object _
    rw [List.map_map]
    rfl
  | _ => rfl

theorem child_mapFloats (step : JsonStep) (value : JsonValue) :
    child step (mapFloats f value) = (child step value).map (mapFloats f) := by
  cases value with
  | array items =>
    cases step with
    | key name => rfl
    | item index =>
      show (mapItems f items)[index]? = items[index]?.map _
      rw [mapItems_eq, List.getElem?_map]
  | object members =>
    cases step with
    | key name => exact lookup_mapMembers f name members
    | item index => rfl
  | _ => cases step <;> rfl

theorem headAt_mapFloats (path : List JsonStep) (value : JsonValue) :
    (mapFloats f value).headAt path = (value.headAt path).map (JsonHead.mapFloat f) := by
  induction path generalizing value with
  | nil => exact congrArg some (head_mapFloats f value)
  | cons step path ih =>
    show (child step (mapFloats f value)).bind _ = ((child step value).bind _).map _
    rw [child_mapFloats]
    cases child step value with
    | none => rfl
    | some next => exact ih next

end JsonValue

/-- A document with some of its numbers made text, and nothing else changed. -/
def Renumbered [JsonText] (old new : JsonValue) : Prop :=
  ∀ path, new.headAt path = old.headAt path ∨
    new.headAt path = (old.headAt path).map (JsonHead.reworded JsonNumber.text)

/-- What is printed of a value that was read, or of one with some of its numbers made text, is
read back, up to its floats. -/
class LawfulJsonText [JsonText] : Prop where
  reads_back : ∀ {text : String} {old new : JsonValue}, JsonText.parse text = .ok old →
    Renumbered old new → JsonText.parse (JsonText.print new) = .ok (new.mapFloats JsonText.reread)

theorem Rewording.renumbered [JsonText] {chosen : List JsonStep → Prop}
    {old new : JsonValue} {changed : Bool}
    (h : Rewording JsonNumber.text chosen old new changed) : Renumbered old new := by
  intro path
  by_cases hchosen : chosen path
  · exact .inr (h.turned path hchosen)
  · exact .inl (h.kept path hchosen)

end QuantForge
