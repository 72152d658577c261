import Mathlib

/-! Rows that are read one by one, where one that cannot be read spoils the whole. -/

namespace HitEnter.Lib.Rows

variable {α β : Type} {f : α → Option β} {rows : List α} {read : List β}

theorem mapM_eq_some_iff : rows.mapM f = some read ↔ List.Forall₂ (fun row x => f row = some x) rows read := by
  induction rows generalizing read with
  | nil => simp [eq_comm]
  | cons row rest ih =>
    simp only [List.mapM_cons, Option.bind_eq_bind, Option.bind_eq_some_iff, List.forall₂_cons_left_iff, ← ih]
    constructor
    · rintro ⟨x, here, later, there, same⟩
      exact ⟨x, later, here, there, (Option.some.inj same).symm⟩
    · rintro ⟨x, later, here, there, rfl⟩
      exact ⟨x, here, later, there, rfl⟩

/-- What is read back as itself, row by row. -/
theorem mapM_map_eq_some {write : β → α} (reads : ∀ x ∈ read, f (write x) = some x) :
    (read.map write).mapM f = some read := by
  rw [mapM_eq_some_iff, List.forall₂_map_left_iff]
  exact List.forall₂_same.mpr reads

end HitEnter.Lib.Rows
