universe u v

variable {ε : Type u} {α β : Type v}

/-- A computation that succeeds went through its first part. -/
theorem Except.bind_eq_ok {x : Except ε α} {f : α → Except ε β} {b : β} :
    x >>= f = .ok b ↔ ∃ a, x = .ok a ∧ f a = .ok b := by
  constructor
  · intro hbind
    cases x with
    | error e => cases hbind
    | ok a => exact ⟨a, rfl, hbind⟩
  · rintro ⟨a, rfl, hf⟩
    exact hf

@[simp] theorem Except.ok_bind (a : α) (f : α → Except ε β) :
    (Except.ok a : Except ε α) >>= f = f a := rfl

@[simp] theorem Except.pure_eq_ok (a : α) : (pure a : Except ε α) = .ok a := rfl

/-- A computation that fails failed in one of its parts. -/
theorem Except.bind_eq_error {x : Except ε α} {f : α → Except ε β} {e : ε} :
    x >>= f = .error e ↔ x = .error e ∨ ∃ a, x = .ok a ∧ f a = .error e := by
  cases x with
  | error e' => exact ⟨fun h => .inl (by cases h; rfl), fun h => by
      obtain h | ⟨a, h, -⟩ := h
      · cases h
        rfl
      · cases h⟩
  | ok a =>
    constructor
    · intro h
      exact .inr ⟨a, rfl, h⟩
    · rintro (h | ⟨b, h, hf⟩)
      · cases h
      · cases h
        exact hf

theorem Except.toOption_eq_some {x : Except ε α} {a : α} : x.toOption = some a ↔ x = .ok a := by
  cases x <;> simp [Except.toOption]

/-- A test of the result alone. -/
theorem Except.toOption_any {x : Except ε α} {P : α → Bool} :
    x.toOption.any P = true ↔ ∃ a, x = .ok a ∧ P a = true := by
  cases x <;> simp [Except.toOption]

/-- Two computations that both fail, or both succeed with related results. -/
inductive Except.Related {ε α : Type u} (R : α → α → Prop) : Except ε α → Except ε α → Prop where
  | ok {a b : α} (hab : R a b) : Related R (.ok a) (.ok b)
  | error (e e' : ε) : Related R (.error e) (.error e')

namespace Except.Related

variable {ε α β : Type u} {R : α → α → Prop} {S : β → β → Prop} {x y z : Except ε α}

theorem refl (hrefl : ∀ a, R a a) (x : Except ε α) : Related R x x := by
  cases x with
  | error e => exact .error e e
  | ok a => exact .ok (hrefl a)

theorem trans (htrans : ∀ a b c, R a b → R b c → R a c) (hxy : Related R x y)
    (hyz : Related R y z) : Related R x z := by
  cases hxy with
  | error e e' =>
    cases hyz
    exact .error _ _
  | ok hab =>
    cases hyz with
    | ok hbc => exact .ok (htrans _ _ _ hab hbc)

/-- Related first parts with related continuations. -/
theorem bind {f g : α → Except ε β} (hxy : Related R x y)
    (hfg : ∀ a b, R a b → Related S (f a) (g b)) : Related S (x >>= f) (y >>= g) := by
  cases hxy with
  | error e e' => exact .error e e'
  | ok hab => exact hfg _ _ hab

/-- The same first part, with continuations related wherever it ends. -/
theorem bind_same {f g : α → Except ε β} (hfg : ∀ a, x = .ok a → Related S (f a) (g a)) :
    Related S (x >>= f) (x >>= g) := by
  cases x with
  | error e => exact .error e e
  | ok a => exact hfg a rfl

/-- Two branches on one condition. -/
theorem ite {p q : Prop} [Decidable p] [Decidable q] {x' y' : Except ε α} (hpq : p ↔ q)
    (hthen : p → Related R x y) (helse : ¬ p → Related R x' y') :
    Related R (if p then x else x') (if q then y else y') := by
  by_cases hp : p
  · rw [if_pos hp, if_pos (hpq.mp hp)]
    exact hthen hp
  · rw [if_neg hp, if_neg fun hq => hp (hpq.mpr hq)]
    exact helse hp

theorem mono {R' : α → α → Prop} (hR : ∀ a b, R a b → R' a b) (hxy : Related R x y) :
    Related R' x y := by
  cases hxy with
  | error e e' => exact .error e e'
  | ok hab => exact .ok (hR _ _ hab)

theorem exists_ok {a : α} (hxy : Related R x y) (hx : x = .ok a) : ∃ b, y = .ok b ∧ R a b := by
  subst hx
  cases hxy with
  | ok hab => exact ⟨_, rfl, hab⟩

theorem of_ok {a b : α} (hxy : Related R x y) (hx : x = .ok a) (hy : y = .ok b) : R a b := by
  subst hx hy
  cases hxy with
  | ok hab => exact hab

end Except.Related
