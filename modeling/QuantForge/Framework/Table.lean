import Mathlib.Data.List.Pairwise
import Mathlib.Data.List.Sort
import Mathlib.Order.Defs.LinearOrder

namespace QuantForge

variable {Row Key : Type} [LinearOrder Key]

/-- Rows in the order of their keys, one at most for each key. -/
structure Table (key : Row → Key) where
  rows : List Row
  rising : rows.Pairwise fun a b => key a < key b

namespace Table

variable {key : Row → Key}

def empty : Table key := ⟨[], List.Pairwise.nil⟩

/-- The row of a key. -/
def find (t : Table key) (k : Key) : Option Row := t.rows.find? fun r => key r = k

/-- Writes a row, over the one its key had. -/
def put (t : Table key) (row : Row) : Table key where
  rows := (t.rows.filter fun r => key r < key row) ++ row :: t.rows.filter fun r => key row < key r
  rising := by
    refine List.pairwise_append.mpr ⟨t.rising.filter _, List.pairwise_cons.mpr ⟨?_, ?_⟩, ?_⟩
    · intro r hr
      simpa using (List.mem_filter.mp hr).2
    · exact t.rising.filter _
    · intro a ha b hb
      have hlow : key a < key row := by simpa using (List.mem_filter.mp ha).2
      rcases List.mem_cons.mp hb with rfl | hb
      · exact hlow
      · have hhigh : key row < key b := by simpa using (List.mem_filter.mp hb).2
        exact hlow.trans hhigh

/-- Keeps the rows that satisfy `p`. -/
def keep (t : Table key) (p : Row → Bool) : Table key := ⟨t.rows.filter p, t.rising.filter p⟩

def erase (t : Table key) (k : Key) : Table key := t.keep fun r => key r ≠ k

/-- The row of the lowest key. -/
def lowest (t : Table key) : Option Row := t.rows.head?

/-- The row of the highest key. -/
def highest (t : Table key) : Option Row := t.rows.getLast?

/-- Rows in the order of their keys are determined by which they are. -/
theorem rising_ext {xs ys : List Row} (hx : xs.Pairwise fun a b => key a < key b)
    (hy : ys.Pairwise fun a b => key a < key b) (h : ∀ r, r ∈ xs ↔ r ∈ ys) : xs = ys := by
  have hperm := (List.perm_ext_iff_of_nodup (hx.imp fun hlt heq => by simp [heq] at hlt)
    (hy.imp fun hlt heq => by simp [heq] at hlt)).mpr h
  apply hperm.eq_of_pairwise ?_ hx hy
  intro a b _ _ hab hba
  exact absurd hab (lt_asymm hba)

/-- Rows in the order of their keys are those below a key, then the rest. -/
theorem rising_split {xs : List Row} (hx : xs.Pairwise fun a b => key a < key b) (k : Key) :
    xs = (xs.filter fun r => key r < k) ++ xs.filter fun r => k ≤ key r := by
  apply rising_ext hx
  · refine List.pairwise_append.mpr ⟨hx.filter _, hx.filter _, ?_⟩
    intro a ha b hb
    have hlow : key a < k := by simpa using (List.mem_filter.mp ha).2
    have hhigh : k ≤ key b := by simpa using (List.mem_filter.mp hb).2
    exact lt_of_lt_of_le hlow hhigh
  · intro r
    simp only [List.mem_append, List.mem_filter, decide_eq_true_eq]
    rw [← and_or_left]
    have hcases := lt_or_ge (key r) k
    tauto

theorem ext_rows {s t : Table key} (h : ∀ r, r ∈ s.rows ↔ r ∈ t.rows) : s = t := by
  have hrows := rising_ext s.rising t.rising h
  cases s
  cases t
  simp only at hrows
  simp only [hrows]

theorem key_injective (t : Table key) {a b : Row} (ha : a ∈ t.rows) (hb : b ∈ t.rows)
    (h : key a = key b) : a = b := by
  by_contra hne
  have hsymm : Std.Symm fun a b => key a ≠ key b := ⟨fun _ _ hab => hab.symm⟩
  have hapart : t.rows.Pairwise fun a b => key a ≠ key b := t.rising.imp ne_of_lt
  exact hapart.forall ha hb hne h

theorem find_iff (t : Table key) {k : Key} {r : Row} :
    t.find k = some r ↔ r ∈ t.rows ∧ key r = k := by
  constructor
  · intro h
    exact ⟨List.mem_of_find?_eq_some h, by simpa using List.find?_some h⟩
  · rintro ⟨hr, rfl⟩
    cases hfind : t.find (key r) with
    | none =>
      have hnone := List.find?_eq_none.mp hfind r hr
      simp at hnone
    | some other =>
      have hmem := List.mem_of_find?_eq_some hfind
      have hkey : key other = key r := by simpa using List.find?_some hfind
      rw [t.key_injective hmem hr hkey]

theorem ext_find {s t : Table key} (h : ∀ k, s.find k = t.find k) : s = t := by
  apply ext_rows
  intro r
  have hs := s.find_iff (k := key r) (r := r)
  have ht := t.find_iff (k := key r) (r := r)
  rw [h] at hs
  have hboth := hs.symm.trans ht
  simpa using hboth

theorem find_none (t : Table key) {k : Key} : t.find k = none ↔ ∀ r ∈ t.rows, key r ≠ k := by
  simp [find]

theorem mem_put (t : Table key) {row r : Row} :
    r ∈ (t.put row).rows ↔ r = row ∨ r ∈ t.rows ∧ key r ≠ key row := by
  simp only [put, List.mem_append, List.mem_cons, List.mem_filter, decide_eq_true_eq,
    lt_or_lt_iff_ne.symm]
  tauto

theorem mem_keep (t : Table key) {p : Row → Bool} {r : Row} :
    r ∈ (t.keep p).rows ↔ r ∈ t.rows ∧ p r = true := List.mem_filter

theorem mem_erase (t : Table key) {k : Key} {r : Row} :
    r ∈ (t.erase k).rows ↔ r ∈ t.rows ∧ key r ≠ k := by
  simp [erase, mem_keep]

theorem find_put (t : Table key) (row : Row) : (t.put row).find (key row) = some row := by
  simp [find_iff, mem_put]

theorem find_put_of_ne (t : Table key) {row : Row} {k : Key} (h : key row ≠ k) :
    (t.put row).find k = t.find k := by
  ext r
  rw [find_iff, find_iff, mem_put]
  constructor
  · rintro ⟨rfl | ⟨hr, -⟩, hk⟩
    · exact absurd hk h
    · exact ⟨hr, hk⟩
  · rintro ⟨hr, rfl⟩
    exact ⟨.inr ⟨hr, h.symm⟩, rfl⟩

/-- Rows of distinct keys, written one after another. -/
theorem find_foldl_put (t : Table key) {rows : List Row}
    (hrows : rows.Pairwise fun a b => key a < key b) (k : Key) :
    (rows.foldl put t).find k = (rows.find? fun r => key r = k).or (t.find k) := by
  induction rows generalizing t with
  | nil => rfl
  | cons row rows ih =>
    obtain ⟨hfirst, hrest⟩ := List.pairwise_cons.mp hrows
    rw [List.foldl_cons, ih (t.put row) hrest]
    by_cases hk : key row = k
    · have hnone : rows.find? (fun r => key r = k) = none := by
        rw [List.find?_eq_none]
        intro r hr
        have hlt := hfirst r hr
        simp only [decide_eq_true_eq]
        rw [← hk]
        exact hlt.ne'
      rw [hnone, Option.none_or, ← hk, find_put]
      simp
    · rw [t.find_put_of_ne hk]
      simp [hk]

theorem find_erase (t : Table key) (k : Key) : (t.erase k).find k = none := by
  simp [find_none, mem_erase]

theorem find_erase_of_ne (t : Table key) {k l : Key} (h : k ≠ l) :
    (t.erase k).find l = t.find l := by
  ext r
  rw [find_iff, find_iff, mem_erase]
  constructor
  · rintro ⟨⟨hr, -⟩, hk⟩
    exact ⟨hr, hk⟩
  · rintro ⟨hr, rfl⟩
    exact ⟨⟨hr, h.symm⟩, rfl⟩

theorem lowest_none (t : Table key) : t.lowest = none ↔ t.rows = [] := List.head?_eq_none_iff

theorem highest_none (t : Table key) : t.highest = none ↔ t.rows = [] := List.getLast?_eq_none_iff

/-- The first of rows in the order of their keys has the lowest key. -/
theorem rising_head {xs : List Row} {first r : Row}
    (hx : xs.Pairwise fun a b => key a < key b) (hfirst : xs.head? = some first) (hr : r ∈ xs) :
    key first ≤ key r := by
  obtain ⟨rest, rfl⟩ := List.head?_eq_some_iff.mp hfirst
  rcases List.mem_cons.mp hr with rfl | hr
  · exact le_rfl
  · exact ((List.pairwise_cons.mp hx).1 r hr).le

theorem rising_last {xs : List Row} {last r : Row}
    (hx : xs.Pairwise fun a b => key a < key b) (hlast : xs.getLast? = some last) (hr : r ∈ xs) :
    key r ≤ key last := by
  obtain ⟨front, rfl⟩ := List.getLast?_eq_some_iff.mp hlast
  rcases List.mem_append.mp hr with hr | hr
  · exact ((List.pairwise_append.mp hx).2.2 r hr last (by simp)).le
  · simp [List.mem_singleton.mp hr]

end Table

end QuantForge
