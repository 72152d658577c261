import Mathlib

/-! Additions and subtractions of 32 bits, as a program that wraps does them, and as one that stops
where they leave the range. A program is written once for both. -/

namespace HitEnter.Lib.Checked

class Arithmetic (m : Type → Type) where
  add : UInt32 → UInt32 → m UInt32
  sub : UInt32 → UInt32 → m UInt32

/-- What does not fit wraps. -/
instance : Arithmetic Id where
  add a b := a + b
  sub a b := a - b

/-- What does not fit stops the program. -/
instance : Arithmetic Option where
  add a b := if a.toNat + b.toNat < 2 ^ 32 then some (a + b) else none
  sub a b := if b.toNat ≤ a.toNat then some (a - b) else none

open Arithmetic

variable {α β : Type} {a b c : UInt32}

theorem add_eq_some : (add a b : Option UInt32) = some c ↔ c.toNat = a.toNat + b.toNat := by
  have exact_ (fits : a.toNat + b.toNat < 2 ^ 32) : (a + b).toNat = a.toNat + b.toNat := by
    rw [UInt32.toNat_add, Nat.mod_eq_of_lt fits]
  change (if _ then _ else _) = _ ↔ _
  split
  · rename_i fits
    rw [Option.some.injEq, ← UInt32.toNat_inj, exact_ fits]
    exact eq_comm
  · rename_i full
    have small := c.toNat_lt
    exact ⟨nofun, fun same => absurd (same ▸ small) full⟩

theorem sub_eq_some : (sub a b : Option UInt32) = some c ↔ c.toNat + b.toNat = a.toNat := by
  change (if _ then _ else _) = _ ↔ _
  split
  · rename_i fits
    have exact_ : (a - b).toNat = a.toNat - b.toNat := UInt32.toNat_sub_of_le a b (UInt32.le_iff_toNat_le.mpr fits)
    rw [Option.some.injEq, ← UInt32.toNat_inj, exact_]
    omega
  · exact ⟨nofun, fun same => by omega⟩

theorem isSome_add : (add a b : Option UInt32).isSome = true ↔ a.toNat + b.toNat < 2 ^ 32 := by
  change (if _ then _ else _ : Option UInt32).isSome = true ↔ _
  split
  · rename_i fits
    exact iff_of_true rfl fits
  · rename_i full
    exact iff_of_false nofun full

theorem isSome_sub : (sub a b : Option UInt32).isSome = true ↔ b.toNat ≤ a.toNat := by
  change (if _ then _ else _ : Option UInt32).isSome = true ↔ _
  split
  · rename_i fits
    exact iff_of_true rfl fits
  · rename_i full
    exact iff_of_false nofun full

/-- A program that does not stop does as the one that wraps. -/
def Agrees (checked : Option α) (wrapped : Id α) : Prop := ∀ a, checked = some a → wrapped = a

theorem Agrees.pure (a : α) : Agrees (pure a) (pure a) := fun _ same => Option.some.inj same

theorem Agrees.bind {checked : Option α} {wrapped : Id α} {next : α → Option β} {next' : α → Id β}
    (first : Agrees checked wrapped) (rest : ∀ a, Agrees (next a) (next' a)) :
    Agrees (checked >>= next) (wrapped >>= next') := by
  intro b done
  obtain ⟨a, began, ended⟩ := Option.bind_eq_some_iff.mp done
  have same := first a began
  subst same
  exact rest _ b ended

theorem Agrees.add (a b : UInt32) : Agrees (add a b) (add a b) := by
  intro c done
  exact UInt32.toNat_inj.mp (by
    rw [add_eq_some.mp done]
    exact (UInt32.toNat_add a b).trans (Nat.mod_eq_of_lt (add_eq_some.mp done ▸ c.toNat_lt)))

theorem Agrees.sub (a b : UInt32) : Agrees (sub a b) (sub a b) := by
  intro c done
  have value := sub_eq_some.mp done
  refine UInt32.toNat_inj.mp ((UInt32.toNat_sub_of_le a b (UInt32.le_iff_toNat_le.mpr (by omega))).trans ?_)
  omega

end HitEnter.Lib.Checked
