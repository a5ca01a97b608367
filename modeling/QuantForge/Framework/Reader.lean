import Mathlib.Data.List.Forall2
import Mathlib.Tactic.Common

namespace QuantForge

/-- A reader of bytes: it answers a value and the bytes it leaves, or an
error. -/
abbrev Reader (ε : Type) := StateT (List UInt8) (Except ε)

theorem bind_ok {ε α β : Type} {x : Except ε α} {f : α → Except ε β} {b : β} :
    (x >>= f) = .ok b ↔ ∃ a, x = .ok a ∧ f a = .ok b := by
  cases x <;> simp [bind, Except.bind]

theorem bind_error {ε α β : Type} {x : Except ε α} {f : α → Except ε β} {e : ε} :
    (x >>= f) = .error e ↔ x = .error e ∨ ∃ a, x = .ok a ∧ f a = .error e := by
  cases x <;> simp [bind, Except.bind]

theorem mapError_ok {ε ε' α : Type} {x : Except ε α} {f : ε → ε'} {a : α} :
    x.mapError f = .ok a ↔ x = .ok a := by
  cases x <;> simp [Except.mapError]

theorem forall₂_mem {α β : Type} {R : α → β → Prop} {as : List α} {bs : List β} {a : α}
    (h : List.Forall₂ R as bs) (ha : a ∈ as) : ∃ b ∈ bs, R a b := by
  induction h with
  | nil => cases ha
  | cons hab _ ih =>
    rcases List.mem_cons.mp ha with rfl | ha
    · exact ⟨_, by simp, hab⟩
    · obtain ⟨b, hb, hrel⟩ := ih ha
      exact ⟨b, by simp [hb], hrel⟩

/-- What a list of computations answers, one by one. -/
theorem mapM_ok {ε α β : Type} {f : α → Except ε β} {as : List α} {bs : List β} :
    as.mapM f = .ok bs ↔ List.Forall₂ (fun a b => f a = .ok b) as bs := by
  induction as generalizing bs with
  | nil =>
    rw [List.mapM_nil, List.forall₂_nil_left_iff, eq_comm (a := bs)]
    exact ⟨fun h => by cases h; rfl, fun h => by rw [← h]; rfl⟩
  | cons a as ih =>
    rw [List.mapM_cons, bind_ok]
    constructor
    · rintro ⟨b, hb, hrest⟩
      obtain ⟨tail, htail, hbs⟩ := bind_ok.mp hrest
      cases hbs
      exact .cons hb (ih.mp htail)
    · intro h
      cases h with
      | @cons _ b _ tail hb hall =>
        exact ⟨b, hb, bind_ok.mpr ⟨tail, ih.mpr hall, rfl⟩⟩

namespace Reader

variable {ε α β : Type}

/-- `p` answers `a` from `input` and leaves `rest`. -/
def Reads (p : Reader ε α) (input : List UInt8) (a : α) (rest : List UInt8) : Prop :=
  p.run input = .ok (a, rest)

theorem pure_reads {a b : α} {input rest : List UInt8} :
    Reads (pure a : Reader ε α) input b rest ↔ b = a ∧ rest = input := by
  have hrun : (pure a : Reader ε α).run input = .ok (a, input) := rfl
  rw [Reads, hrun, Except.ok.injEq, Prod.mk.injEq, eq_comm, @eq_comm _ input]

/-- A reader and what its answer reads next. -/
theorem bind_reads {p : Reader ε α} {f : α → Reader ε β} {input rest : List UInt8} {b : β} :
    Reads (p >>= f) input b rest ↔
      ∃ a mid, Reads p input a mid ∧ Reads (f a) mid b rest := by
  simp only [Reads, StateT.run_bind]
  cases p.run input with
  | error e => simp [bind, Except.bind]
  | ok found =>
    obtain ⟨a, mid⟩ := found
    simp [bind, Except.bind]

/-- Refuses with `e` unless `c` holds. -/
def ensure (c : Bool) (e : ε) : Reader ε Unit := fun input =>
  if c then .ok ((), input) else .error e

theorem ensure_reads {c : Bool} {e : ε} {input rest : List UInt8} {u : Unit} :
    Reads (ensure c e) input u rest ↔ c = true ∧ rest = input := by
  unfold Reads ensure StateT.run
  cases c
  · simp
  · simp [eq_comm]

/-- What a computation that reads nothing answers. -/
def lift (result : Except ε α) : Reader ε α := fun input => result.map fun a => (a, input)

theorem lift_reads {result : Except ε α} {input rest : List UInt8} {a : α} :
    Reads (lift result) input a rest ↔ result = .ok a ∧ rest = input := by
  unfold Reads lift StateT.run
  cases result with
  | error e => simp [Except.map]
  | ok found => simp [Except.map, eq_comm]

/-- The next `len` bytes, or `short` where there are fewer. -/
def take (short : ε) (len : Nat) : Reader ε (List UInt8) := fun input =>
  if len ≤ input.length then .ok (input.take len, input.drop len) else .error short

theorem take_reads {short : ε} {len : Nat} {input head rest : List UInt8} :
    Reads (take short len) input head rest ↔ input = head ++ rest ∧ head.length = len := by
  have hrun : (take short len).run input =
      if len ≤ input.length then .ok (input.take len, input.drop len) else .error short := rfl
  rw [Reads, hrun]
  constructor
  · intro h
    split_ifs at h with hlen
    simp only [Except.ok.injEq, Prod.mk.injEq] at h
    rw [← h.1, ← h.2, List.take_append_drop, List.length_take]
    exact ⟨rfl, Nat.min_eq_left hlen⟩
  · rintro ⟨rfl, rfl⟩
    simp

/-- Nothing is left to read. -/
def finish (trailing : ε) : Reader ε Unit := fun input =>
  if input.isEmpty then .ok ((), input) else .error trailing

theorem finish_reads {trailing : ε} {input rest : List UInt8} {u : Unit} :
    Reads (finish trailing) input u rest ↔ input = [] ∧ rest = [] := by
  unfold Reads finish StateT.run
  cases input
  · simp [eq_comm]
  · simp

def chunks (size : Nat) : Nat → List UInt8 → List (List UInt8)
  | 0, _ => []
  | count + 1, bytes => bytes.take size :: chunks size count (bytes.drop size)

theorem chunks_flatten {size : Nat} (ws : List (List UInt8)) (h : ∀ w ∈ ws, w.length = size) :
    chunks size ws.length ws.flatten = ws := by
  induction ws with
  | nil => rfl
  | cons w ws ih =>
    have hw : w.length = size := h w (by simp)
    rw [List.length_cons, List.flatten_cons, chunks, List.take_left' hw, List.drop_left' hw,
      ih fun v hv => h v (by simp [hv])]

theorem flatten_chunks {size count : Nat} {bytes : List UInt8} (h : bytes.length = count * size) :
    (chunks size count bytes).flatten = bytes ∧ (chunks size count bytes).length = count ∧
      ∀ w ∈ chunks size count bytes, w.length = size := by
  induction count generalizing bytes with
  | zero =>
    have hnil : bytes = [] := List.length_eq_zero_iff.mp (by simpa using h)
    simp [chunks, hnil]
  | succ count ih =>
    rw [Nat.succ_mul] at h
    have hdrop : (bytes.drop size).length = count * size := by
      rw [List.length_drop]
      omega
    obtain ⟨hflat, hlen, hsize⟩ := ih hdrop
    refine ⟨?_, by rw [chunks, List.length_cons, hlen], ?_⟩
    · rw [chunks, List.flatten_cons, hflat, List.take_append_drop]
    · intro w hw
      rcases List.mem_cons.mp hw with rfl | hw
      · rw [List.length_take]
        omega
      · exact hsize w hw

/-- `count` words of `size` bytes each, as `decode` reads one. -/
def words (short : ε) (size count : Nat) (decode : List UInt8 → α) : Reader ε (List α) := do
  let bytes ← take short (count * size)
  return (chunks size count bytes).map decode

/-- Words read back as they are written. -/
theorem words_reads {short : ε} {size count : Nat} {decode : List UInt8 → α}
    {encode : α → List UInt8}
    (hword : ∀ bytes a, bytes.length = size → (decode bytes = a ↔ bytes = encode a))
    (hsize : ∀ a, (encode a).length = size) {input rest : List UInt8} {as : List α} :
    Reads (words short size count decode) input as rest ↔
      input = as.flatMap encode ++ rest ∧ as.length = count := by
  unfold words
  rw [bind_reads]
  simp only [take_reads, pure_reads]
  constructor
  · rintro ⟨bytes, mid, ⟨hinput, hlen⟩, has, hmid⟩
    obtain ⟨hflat, hcount, hsizes⟩ := flatten_chunks hlen
    subst hmid
    have hback : (as.map encode) = chunks size count bytes := by
      rw [has, List.map_map]
      exact (List.map_congr_left fun w hw =>
        ((hword w _ (hsizes w hw)).mp rfl).symm).trans (List.map_id _)
    rw [List.flatMap_def, hback, hflat]
    exact ⟨hinput, by rw [has, List.length_map, hcount]⟩
  · rintro ⟨hinput, hcount⟩
    have hmap : (as.map encode).length = count := by rw [List.length_map, hcount]
    have hsizes : ∀ w ∈ as.map encode, w.length = size := by
      intro w hw
      obtain ⟨a, -, rfl⟩ := List.mem_map.mp hw
      exact hsize a
    refine ⟨as.flatMap encode, rest, ⟨hinput, ?_⟩, ?_, rfl⟩
    · rw [← hcount, List.length_flatMap]
      simp [hsize]
    · rw [List.flatMap_def, ← hmap, chunks_flatten _ hsizes, List.map_map]
      exact ((List.map_congr_left fun a _ =>
        (hword _ a (hsize a)).mpr rfl).trans (List.map_id _)).symm

/-- Readers run one after another over a list. -/
theorem mapM_reads {γ : Type} {f : γ → Reader ε β} {encode : β → List UInt8} {R : γ → β → Prop}
    (hone : ∀ c input b rest, Reads (f c) input b rest ↔ input = encode b ++ rest ∧ R c b)
    {cs : List γ} {input rest : List UInt8} {bs : List β} :
    Reads (cs.mapM f) input bs rest ↔
      input = bs.flatMap encode ++ rest ∧ List.Forall₂ R cs bs := by
  induction cs generalizing input bs with
  | nil =>
    rw [List.mapM_nil, pure_reads]
    constructor
    · rintro ⟨rfl, rfl⟩
      simp
    · rintro ⟨hinput, hnil⟩
      cases hnil
      exact ⟨rfl, by simpa using hinput.symm⟩
  | cons c cs ih =>
    rw [List.mapM_cons, bind_reads]
    constructor
    · rintro ⟨b, mid, hb, htail⟩
      obtain ⟨tail, mid', htail, hpure⟩ := bind_reads.mp htail
      obtain ⟨rfl, rfl⟩ := pure_reads.mp hpure
      obtain ⟨rfl, hR⟩ := (hone c input b mid).mp hb
      obtain ⟨rfl, hall⟩ := ih.mp htail
      exact ⟨by simp, .cons hR hall⟩
    · rintro ⟨hinput, hall⟩
      cases hall with
      | @cons _ b _ tail hR hall =>
        refine ⟨b, tail.flatMap encode ++ rest, (hone c _ b _).mpr ⟨?_, hR⟩, ?_⟩
        · rw [hinput, List.flatMap_cons, List.append_assoc]
        · exact bind_reads.mpr ⟨tail, rest, ih.mpr ⟨rfl, hall⟩, pure_reads.mpr ⟨rfl, rfl⟩⟩

end Reader

end QuantForge
