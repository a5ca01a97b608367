import QuantForge.Model.Text

namespace QuantForge.Text

/-- Rust's `split_once`: what stands before and after the first `c`. -/
def splitOnce (c : Char) (text : List Char) : Option (List Char × List Char) :=
  if c ∈ text then some (text.takeWhile (· != c), (text.dropWhile (· != c)).drop 1) else none

def stripPrefix (fixed text : List Char) : Option (List Char) :=
  if fixed.isPrefixOf text then some (text.drop fixed.length) else none

def stripSuffix (fixed text : List Char) : Option (List Char) :=
  if fixed.isSuffixOf text then some (text.take (text.length - fixed.length)) else none

def trimStart (drops : Char → Bool) (text : List Char) : List Char := text.dropWhile drops

/-- Rust's `trim_matches`. -/
def trim (drops : Char → Bool) (text : List Char) : List Char :=
  (trimStart drops (trimStart drops text).reverse).reverse

/-- Rust's `join`. -/
def join (separator : List Char) (parts : List (List Char)) : List Char :=
  separator.intercalate parts

/-- Rust's `replace` of one character. -/
def replace (c : Char) (by_ : List Char) (text : List Char) : List Char :=
  text.flatMap fun d => if d = c then by_ else [d]

theorem stripSuffix_some {fixed text stem : List Char} :
    stripSuffix fixed text = some stem ↔ text = stem ++ fixed := by
  unfold stripSuffix
  constructor
  · intro h
    split_ifs at h with hsuffix
    obtain ⟨before, rfl⟩ := List.isSuffixOf_iff_suffix.mp hsuffix
    have hstem : before = stem := by simpa using h
    rw [hstem]
  · rintro rfl
    rw [if_pos (List.isSuffixOf_iff_suffix.mpr (List.suffix_append stem fixed))]
    simp

end QuantForge.Text
