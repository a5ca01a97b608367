import QuantForge.Framework.Prog

namespace QuantForge.Prog

variable {W V E F α β : Type}

/-- A program over a part of the world. -/
def within (get : W → V) (put : V → W → W) (fails : E → F) (x : Prog V E α) : Prog W F α :=
  fun w => ((x (get w)).1.mapError fails, put (x (get w)).2 w)

/-- From a world with `P`, the program answers where `Q` holds or fails where
`R` does. -/
def Meets (P : W → Prop) (x : Prog W E α) (Q : α → W → Prop) (R : E → W → Prop) : Prop :=
  ∀ w, P w → (∀ a v, x w = (.ok a, v) → Q a v) ∧ ∀ e v, x w = (.error e, v) → R e v

/-- The program leaves `f` of the world as it is. -/
def Leaves (f : W → V) (x : Prog W E α) : Prop := ∀ w, f (x w).2 = f w

section

variable {P : W → Prop} {Q : α → W → Prop} {R : E → W → Prop} {T : β → W → Prop}

theorem meets_pure {a : α} (h : ∀ w, P w → Q a w) : Meets P (pure a : Prog W E α) Q R := by
  intro w hP
  constructor
  · intro b v hrun
    rw [pure_run, Prod.mk.injEq, Except.ok.injEq] at hrun
    rw [← hrun.1, ← hrun.2]
    exact h w hP
  · intro e v hrun
    rw [pure_run, Prod.mk.injEq] at hrun
    cases hrun.1

theorem meets_bind {x : Prog W E α} {f : α → Prog W E β} (hx : Meets P x Q R)
    (hf : ∀ a, Meets (Q a) (f a) T R) : Meets P (x >>= f) T R := by
  intro w hP
  obtain ⟨answers, fails⟩ := hx w hP
  rcases bind_cases x f w with ⟨e, u, hstop, hrun⟩ | ⟨a, u, hgo, hrun⟩
  · rw [hrun]
    constructor
    · intro b v h
      cases h
    · intro e' v h
      cases h
      exact fails e u hstop
  · rw [hrun]
    exact hf a u (answers a u hgo)

theorem meets_weaken {x : Prog W E α} {P' : W → Prop} {Q' : α → W → Prop} {R' : E → W → Prop}
    (h : Meets P x Q R) (hP : ∀ w, P' w → P w) (hQ : ∀ a w, Q a w → Q' a w)
    (hR : ∀ e w, R e w → R' e w) : Meets P' x Q' R' := by
  intro w hw
  obtain ⟨answers, fails⟩ := h w (hP w hw)
  exact ⟨fun a v hrun => hQ a v (answers a v hrun), fun e v hrun => hR e v (fails e v hrun)⟩

theorem meets_of_keeps {x : Prog W E α} (h : Keeps P x) :
    Meets P x (fun _ => P) fun _ => P := by
  intro w hP
  have kept := h w hP
  constructor
  all_goals
    intro a v hrun
    rwa [hrun] at kept

/-- What holds however the program ends. -/
theorem meets_ends {x : Prog W E α} {P' : W → Prop} (h : Meets P x (fun _ => P') fun _ => P')
    {w : W} (hP : P w) : P' (x w).2 := by
  obtain ⟨answers, fails⟩ := h w hP
  rcases hx : x w with ⟨outcome, v⟩
  cases outcome with
  | ok a => exact answers a v hx
  | error e => exact fails e v hx

theorem meets_ofExcept {answered : Except E α} (ok : ∀ a w, answered = .ok a → P w → Q a w)
    (error : ∀ e w, answered = .error e → P w → R e w) : Meets P (ofExcept answered) Q R := by
  intro w hP
  constructor
  · intro a v h
    cases h
    exact ok a w rfl hP
  · intro e v h
    cases h
    exact error e w rfl hP

end

theorem leaves_compositional (f : W → V) :
    Compositional fun {α : Type} (x : Prog W E α) => Leaves f x where
  answer _ := fun _ => rfl
  andThen := by
    intro α β x g hx hg w
    have first := hx w
    rcases bind_cases x g w with ⟨e, v, hv, hrun⟩ | ⟨a, v, hv, hrun⟩
    · rw [hrun, ← first, hv]
    · rw [hrun, hg a v, ← first, hv]

theorem meets_of_leaves {f : W → V} {x : Prog W E α} (h : Leaves f x) (P : V → Prop) :
    Meets (fun w => P (f w)) x (fun _ w => P (f w)) fun _ w => P (f w) :=
  meets_of_keeps fun w hP => (h w).symm ▸ hP

variable {W V E F α β γ δ : Type}

/-- From worlds related by `R`, two programs both answer where `Q` holds of what they answer
and leave, or both fail where `T` does. -/
def Alike (R : W → V → Prop) (x : Prog W E α) (y : Prog V F β) (Q : α → β → W → V → Prop)
    (T : E → F → W → V → Prop) : Prop :=
  ∀ w v, R w v →
    (∃ a b w' v', x w = (.ok a, w') ∧ y v = (.ok b, v') ∧ Q a b w' v') ∨
      ∃ e f w' v', x w = (.error e, w') ∧ y v = (.error f, v') ∧ T e f w' v'

section

variable {R : W → V → Prop} {Q : α → β → W → V → Prop} {T : E → F → W → V → Prop}
  {U : γ → δ → W → V → Prop} {x : Prog W E α} {y : Prog V F β}

theorem alike_bind {f : α → Prog W E γ} {g : β → Prog V F δ} (h : Alike R x y Q T)
    (rest : ∀ a b, Alike (Q a b) (f a) (g b) U T) : Alike R (x >>= f) (y >>= g) U T := by
  intro w v hR
  rcases h w v hR with ⟨a, b, w', v', hx, hy, hQ⟩ | ⟨e, e', w', v', hx, hy, hT⟩
  · rw [seq_ok hx, seq_ok hy]
    exact rest a b w' v' hQ
  · exact .inr ⟨e, e', w', v', seq_error hx, seq_error hy, hT⟩

theorem alike_weaken {R' : W → V → Prop} {Q' : α → β → W → V → Prop} {T' : E → F → W → V → Prop}
    (h : Alike R x y Q T) (hR : ∀ w v, R' w v → R w v) (hQ : ∀ a b w v, Q a b w v → Q' a b w v)
    (hT : ∀ e f w v, T e f w v → T' e f w v) : Alike R' x y Q' T' := by
  intro w v h'
  rcases h w v (hR w v h') with ⟨a, b, w', v', hx, hy, hq⟩ | ⟨e, f, w', v', hx, hy, ht⟩
  · exact .inl ⟨a, b, w', v', hx, hy, hQ a b w' v' hq⟩
  · exact .inr ⟨e, f, w', v', hx, hy, hT e f w' v' ht⟩

/-- Where related programs can only end in related ways, so do their ends. -/
theorem alike_ends {P : Except E α → Except F β → W → V → Prop}
    (h : Alike R x y (fun a b => P (.ok a) (.ok b)) fun e f => P (.error e) (.error f)) {w : W}
    {v : V} (hR : R w v) : P (x w).1 (y v).1 (x w).2 (y v).2 := by
  rcases h w v hR with ⟨a, b, w', v', hx, hy, hP⟩ | ⟨e, f, w', v', hx, hy, hP⟩
  · rw [hx, hy]
    exact hP
  · rw [hx, hy]
    exact hP

end

/-- Two answers that are the same up to what their failures show. -/
theorem alike_ofExcept {K : Type} {R : W → V → Prop} {show₁ : E → K} {show₂ : F → K}
    {answered : Except E α} {other : Except F α}
    (h : answered.mapError show₁ = other.mapError show₂) :
    Alike R (ofExcept answered) (ofExcept other) (fun a b w v => a = b ∧ R w v)
      fun e f w v => show₁ e = show₂ f ∧ R w v := by
  intro w v hR
  cases answered with
  | ok a =>
    cases other with
    | ok b => exact .inl ⟨a, b, w, v, rfl, rfl, Except.ok.inj h, hR⟩
    | error f => cases h
  | error e =>
    cases other with
    | ok b => cases h
    | error f => exact .inr ⟨e, f, w, v, rfl, rfl, Except.error.inj h, hR⟩

end QuantForge.Prog
