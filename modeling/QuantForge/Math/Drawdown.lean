import Mathlib.Algebra.Order.Field.Basic
import Mathlib.Data.List.Induction
import Mathlib.Order.Bounds.Basic
import Mathlib.Tactic.Linarith

namespace QuantForge.Drawdown

variable {K : Type} [Field K] [LinearOrder K]

/-- The falls from a positive value to a later one, each as a part of the first. -/
def falls (values : List K) : Set K :=
  {x | ∃ (i j : Nat) (a b : K), i ≤ j ∧ values[i]? = some a ∧ values[j]? = some b ∧ 0 < a ∧
    x = (a - b) / a}

/-- The largest of them, or 0 where there is none. -/
def IsLargestFall (values : List K) (d : K) : Prop :=
  (falls values = ∅ ∧ d = 0) ∨ IsGreatest (falls values) d

/-- The highest value so far and the deepest fall below it, one value on. -/
def step (s : K × K) (value : K) : K × K :=
  let peak := if s.1 < value then value else s.1
  if 0 < peak then (peak, if s.2 < (peak - value) / peak then (peak - value) / peak else s.2)
  else (peak, s.2)

/-- What one pass over the values keeps. -/
def pass (values : List K) : K × K := values.foldl step (0, 0)

theorem pass_append (values : List K) (value : K) :
    pass (values ++ [value]) = step (pass values) value := by
  rw [pass, List.foldl_append, List.foldl_cons, List.foldl_nil, pass]

omit [Field K] in
theorem raised (peak value : K) : (if peak < value then value else peak) = max peak value := by
  by_cases hlt : peak < value
  · rw [if_pos hlt, max_eq_right hlt.le]
  · rw [if_neg hlt, max_eq_left (not_lt.mp hlt)]

theorem step_peak (s : K × K) (value : K) : (step s value).1 = max s.1 value := by
  simp only [step, raised]
  split_ifs <;> rfl

theorem step_fall {s : K × K} {value : K} (h : 0 < max s.1 value) :
    (step s value).2 = max s.2 ((max s.1 value - value) / max s.1 value) := by
  simp only [step, raised, if_pos h]

theorem step_idle {s : K × K} {value : K} (h : ¬0 < max s.1 value) : (step s value).2 = s.2 := by
  simp only [step, raised, if_neg h]

theorem falls_empty {values : List K} (h : ∀ value ∈ values, value ≤ 0) : falls values = ∅ := by
  rw [Set.eq_empty_iff_forall_notMem]
  intro x hx
  obtain ⟨i, j, a, b, -, ha, -, hpos, -⟩ := hx
  exact absurd (h a (List.mem_of_getElem? ha)) (not_le.mpr hpos)

/-- A fall to the last value or an earlier fall. -/
theorem mem_falls_append {values : List K} {value x : K} :
    x ∈ falls (values ++ [value]) ↔
      x ∈ falls values ∨ ∃ a, (a ∈ values ∨ a = value) ∧ 0 < a ∧ x = (a - value) / a := by
  constructor
  · intro h
    obtain ⟨i, j, a, b, hij, ha, hb, hpos, hx⟩ := h
    by_cases hj : j < values.length
    · rw [List.getElem?_append_left hj] at hb
      rw [List.getElem?_append_left (by omega)] at ha
      exact .inl ⟨i, j, a, b, hij, ha, hb, hpos, hx⟩
    · have hlast : b = value := by
        have hmem : (values ++ [value])[j]? = some b := hb
        rw [List.getElem?_append_right (by omega)] at hmem
        exact List.mem_singleton.mp (List.mem_of_getElem? hmem)
      have hfrom : a ∈ values ∨ a = value := by
        have hmem := List.mem_of_getElem? ha
        rwa [List.mem_append, List.mem_singleton] at hmem
      rw [hlast] at hx
      exact .inr ⟨a, hfrom, hpos, hx⟩
  · intro h
    rcases h with h | ⟨a, hfrom, hpos, hx⟩
    · obtain ⟨i, j, a, b, hij, ha, hb, hpos, hx⟩ := h
      have hi := (List.getElem?_eq_some_iff.mp ha).1
      have hj := (List.getElem?_eq_some_iff.mp hb).1
      refine ⟨i, j, a, b, hij, ?_, ?_, hpos, hx⟩
      · rw [List.getElem?_append_left hi, ha]
      · rw [List.getElem?_append_left hj, hb]
    · have hlast : (values ++ [value])[values.length]? = some value := List.getElem?_concat_length
      have hmem : a ∈ values ++ [value] := by
        rwa [List.mem_append, List.mem_singleton]
      obtain ⟨i, hi, ha⟩ := List.mem_iff_getElem.mp hmem
      have hle : i ≤ values.length := by
        rw [List.length_append, List.length_singleton] at hi
        omega
      refine ⟨i, values.length, a, value, hle, ?_, hlast, hpos, hx⟩
      rw [List.getElem?_eq_getElem hi, ha]

variable [IsStrictOrderedRing K]

/-- A fall from a higher value is deeper. -/
theorem fall_mono {a b value : K} (ha : 0 < a) (hab : a ≤ b) (hvalue : 0 ≤ value) :
    (a - value) / a ≤ (b - value) / b := by
  have hb : 0 < b := lt_of_lt_of_le ha hab
  rw [div_le_div_iff₀ ha hb]
  nlinarith [mul_le_mul_of_nonneg_left hab hvalue]

/-- What the pass keeps of the values so far. -/
structure Kept (values : List K) (s : K × K) : Prop where
  above : ∀ value ∈ values, value ≤ s.1
  peak : s.1 = 0 ∨ s.1 ∈ values
  nonneg : 0 ≤ s.1
  largest : IsLargestFall values s.2
  range : 0 ≤ s.2 ∧ s.2 ≤ 1

theorem Kept.step {values : List K} {s : K × K} (h : Kept values s) {value : K}
    (hvalue : 0 ≤ value) : Kept (values ++ [value]) (step s value) := by
  have hpeak := step_peak s value
  have habove : ∀ other ∈ values ++ [value], other ≤ max s.1 value := by
    intro other hother
    rw [List.mem_append, List.mem_singleton] at hother
    rcases hother with hother | rfl
    · exact le_max_of_le_left (h.above other hother)
    · exact le_max_right _ _
  by_cases hpos : 0 < max s.1 value
  · have hfall := step_fall hpos
    have hfrom : max s.1 value ∈ values ∨ max s.1 value = value := by
      rcases max_choice s.1 value with hmax | hmax
      · rw [hmax] at hpos ⊢
        rcases h.peak with hzero | hmem
        · rw [hzero] at hpos
          exact absurd hpos (lt_irrefl 0)
        · exact .inl hmem
      · exact .inr hmax
    have hnew : (max s.1 value - value) / max s.1 value ∈ falls (values ++ [value]) :=
      mem_falls_append.mpr (.inr ⟨_, hfrom, hpos, rfl⟩)
    have hzero : (0 : K) ≤ (max s.1 value - value) / max s.1 value :=
      div_nonneg (sub_nonneg.mpr (le_max_right _ _)) hpos.le
    have hone : (max s.1 value - value) / max s.1 value ≤ 1 := by
      rw [div_le_one hpos]
      linarith
    refine ⟨?_, ?_, ?_, ?_, ?_⟩
    · rw [hpeak]
      exact habove
    · rw [hpeak, List.mem_append, List.mem_singleton]
      exact .inr hfrom
    · rw [hpeak]
      exact hpos.le
    · right
      rw [hfall]
      constructor
      · rcases max_choice s.2 ((max s.1 value - value) / max s.1 value) with hmax | hmax
        · rw [hmax]
          rcases h.largest with ⟨-, hnone⟩ | hgreatest
          · have hsame : s.2 = (max s.1 value - value) / max s.1 value := by
              apply le_antisymm
              · rw [hnone]
                exact hzero
              · exact max_eq_left_iff.mp hmax
            rw [hsame]
            exact hnew
          · exact mem_falls_append.mpr (.inl hgreatest.1)
        · rw [hmax]
          exact hnew
      · intro x hx
        rcases mem_falls_append.mp hx with hx | ⟨a, hfrom, hposa, hx⟩
        · apply le_max_of_le_left
          rcases h.largest with ⟨hempty, -⟩ | hgreatest
          · rw [hempty] at hx
            exact absurd hx (Set.notMem_empty x)
          · exact hgreatest.2 hx
        · apply le_max_of_le_right
          rw [hx]
          apply fall_mono hposa _ hvalue
          apply habove
          rw [List.mem_append, List.mem_singleton]
          exact hfrom
    · rw [hfall]
      exact ⟨le_max_of_le_right hzero, max_le h.range.2 hone⟩
  · have hidle := step_idle hpos
    have hnone : ∀ other ∈ values ++ [value], other ≤ 0 :=
      fun other hother => (habove other hother).trans (not_lt.mp hpos)
    have hzero : max s.1 value = 0 := le_antisymm (not_lt.mp hpos) (le_max_of_le_left h.nonneg)
    refine ⟨?_, ?_, ?_, ?_, ?_⟩
    · rw [hpeak]
      exact habove
    · exact .inl (hpeak.trans hzero)
    · rw [hpeak, hzero]
    · left
      refine ⟨falls_empty hnone, ?_⟩
      rw [hidle]
      rcases h.largest with ⟨-, hd⟩ | hgreatest
      · exact hd
      · have hempty := falls_empty fun other hother => hnone other (List.mem_append_left _ hother)
        have hmem := hgreatest.1
        rw [hempty] at hmem
        exact absurd hmem (Set.notMem_empty _)
    · rw [hidle]
      exact h.range

/-- The one pass finds the largest fall of values that are not negative. -/
theorem pass_kept {values : List K} (h : ∀ value ∈ values, 0 ≤ value) :
    Kept values (pass values) := by
  induction values using List.reverseRecOn with
  | nil =>
    refine ⟨by simp, .inl rfl, le_rfl, .inl ⟨falls_empty (by simp), rfl⟩, le_rfl, zero_le_one⟩
  | append_singleton values value ih =>
    rw [pass_append]
    apply Kept.step
    · exact ih fun other hother => h other (List.mem_append_left _ hother)
    · exact h value (by simp)

end QuantForge.Drawdown
