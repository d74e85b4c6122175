universe u v

variable {σ : Type u} {α : Type v}

/-- A fold with a step that refuses one of the elements in every state refuses. -/
theorem List.foldlM_eq_none {f : σ → α → Option σ} {l : List α} {a : α} (ha : a ∈ l)
    (hrefused : ∀ s, f s a = none) (s : σ) : l.foldlM f s = none := by
  induction l generalizing s with
  | nil => cases ha
  | cons b rest ih =>
    rw [List.foldlM_cons]
    rcases List.mem_cons.mp ha with rfl | hrest
    · rw [hrefused]
      rfl
    · cases f s b with
      | none => rfl
      | some next => exact ih hrest next
