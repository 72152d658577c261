import Mathlib

/-! Counting things once: adding up how often each is there, and the first item of each key. -/

namespace HitEnter.Lib.Counting

variable {α κ : Type}

theorem countP_le_sum (f : α → ℕ) (row : List α) : row.countP (0 < f ·) ≤ (row.map f).sum := by
  induction row with
  | nil => exact le_rfl
  | cons x rest ih =>
    rw [List.countP_cons, List.map_cons, List.sum_cons]
    by_cases some_ : 0 < f x <;> simp [some_] <;> omega

/-- To add up numbers is to count those that are not 0, where none is above 1. -/
theorem sum_eq_countP_iff (f : α → ℕ) (row : List α) :
    (row.map f).sum = row.countP (0 < f ·) ↔ ∀ x ∈ row, f x ≤ 1 := by
  induction row with
  | nil => simp
  | cons x rest ih =>
    have least := countP_le_sum f rest
    rw [List.countP_cons, List.map_cons, List.sum_cons, List.forall_mem_cons, ← ih]
    by_cases some_ : 0 < f x <;> simp [some_] <;> omega

/-! ### The first of each key -/

variable [DecidableEq κ] {key : α → κ}

/-- The items whose keys have not been seen. -/
def firstsFrom (key : α → κ) (seen : List κ) : List α → List α
  | [] => []
  | x :: rest => if key x ∈ seen then firstsFrom key seen rest else x :: firstsFrom key (key x :: seen) rest

def firsts (key : α → κ) (items : List α) : List α := firstsFrom key [] items

theorem mem_firstsFrom {seen : List κ} {items : List α} {x : α} (member : x ∈ firstsFrom key seen items) :
    x ∈ items ∧ key x ∉ seen := by
  induction items generalizing seen with
  | nil => cases member
  | cons y rest ih =>
    rw [firstsFrom] at member
    split at member
    · exact ⟨List.mem_cons_of_mem y (ih member).1, (ih member).2⟩
    · rename_i fresh
      rcases List.mem_cons.mp member with rfl | later
      · exact ⟨List.mem_cons_self, fresh⟩
      · exact ⟨List.mem_cons_of_mem y (ih later).1, fun earlier => (ih later).2 (List.mem_cons_of_mem _ earlier)⟩

theorem firsts_nodup (items : List α) : ((firsts key items).map key).Nodup := by
  have general (seen : List κ) : ((firstsFrom key seen items).map key).Nodup := by
    induction items generalizing seen with
    | nil => exact List.nodup_nil
    | cons y rest ih =>
      rw [firstsFrom]
      split
      · exact ih seen
      · refine List.nodup_cons.mpr ⟨fun again => ?_, ih _⟩
        obtain ⟨x, later, same⟩ := List.mem_map.mp again
        exact (mem_firstsFrom later).2 (same ▸ List.mem_cons_self)
  exact general []

theorem exists_firsts {items : List α} {x : α} (member : x ∈ items) : ∃ y ∈ firsts key items, key y = key x := by
  have general (seen : List κ) (fresh : key x ∉ seen) : ∃ y ∈ firstsFrom key seen items, key y = key x := by
    induction items generalizing seen with
    | nil => cases member
    | cons y rest ih =>
      rw [firstsFrom]
      rcases List.mem_cons.mp member with rfl | later
      · exact ⟨x, by simp [fresh], rfl⟩
      · split
        · exact ih later seen fresh
        · by_cases same : key y = key x
          · exact ⟨y, List.mem_cons_self, same⟩
          · obtain ⟨z, further, own⟩ := ih later (key y :: seen) (by simp [fresh, Ne.symm same])
            exact ⟨z, List.mem_cons_of_mem y further, own⟩
  exact general [] List.not_mem_nil

/-- Items that their keys tell apart are all kept, each once. -/
theorem mem_firsts {items : List α} (apart : ∀ x ∈ items, ∀ y ∈ items, key x = key y → x = y) {x : α} :
    x ∈ firsts key items ↔ x ∈ items := by
  refine ⟨fun member => (mem_firstsFrom member).1, fun member => ?_⟩
  obtain ⟨y, kept, same⟩ := @exists_firsts _ _ _ key items x member
  rwa [← apart y (mem_firstsFrom kept).1 x member same]

end HitEnter.Lib.Counting
