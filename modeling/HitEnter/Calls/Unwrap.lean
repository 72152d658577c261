import HitEnter.Calls.Jitter

/-! Which number a packet is given: of those with its 16 bits, the nearest to the newest seen. -/

namespace HitEnter.Calls.Jitter

open Lib.Checked Wire

/-- The number given to a packet that is `ahead` of `newest`, counted around the 16 bits. -/
def unwrapped (newest ahead : ℕ) : ℕ :=
  if ahead < 32768 ∧ newest + ahead < 2 ^ 32 then newest + ahead else newest + ahead - 65536

/-- How far ahead of `newest` a number of 16 bits is, counted around them. -/
def ahead (newest seq : ℕ) : ℕ := (seq + (65536 - newest % 65536)) % 65536

theorem unwrapped_lt {newest d : ℕ} (below : newest < 2 ^ 32) (short : d < 65536) : unwrapped newest d < 2 ^ 32 := by
  unfold unwrapped
  split <;> omega

theorem unwrapped_le (newest : ℕ) {d : ℕ} (short : d < 65536) : unwrapped newest d ≤ newest + 32767 := by
  unfold unwrapped
  split <;> omega

/-- The number above the same 16 bits is as near as it gets from below. -/
private theorem nearest_ahead {n d c : ℕ} (high : 65536 ≤ n) (short : d < 65536) (small : n + d < 2 ^ 32)
    (far : c = n + d + 65536 ∨ c + 65536 < n) :
    (if Nat.dist (if Nat.dist (n + d - 65536) n ≤ Nat.dist (n + d) n then n + d - 65536 else n + d) n ≤ Nat.dist c n
      then (if Nat.dist (n + d - 65536) n ≤ Nat.dist (n + d) n then n + d - 65536 else n + d) else c) =
      unwrapped n d := by
  have back : Nat.dist (n + d - 65536) n = 65536 - d := by unfold Nat.dist; omega
  have on : Nat.dist (n + d) n = d := by unfold Nat.dist; omega
  have off : 65536 ≤ Nat.dist c n := by unfold Nat.dist; omega
  rw [back, on]
  unfold unwrapped
  by_cases less : 65536 - d ≤ d
  · rw [if_pos less, back, if_pos (by omega), if_neg (by omega)]
  · rw [if_neg less, on, if_pos (by omega), if_pos ⟨by omega, small⟩]

private theorem nearest_behind {n d c : ℕ} (high : 131072 ≤ n + d) (short : d < 65536)
    (last : c = n + d ∧ n + d < 2 ^ 32 ∨ c + 65536 < n ∧ 2 ^ 32 ≤ n + d) :
    (if Nat.dist (if Nat.dist (n + d - 131072) n ≤ Nat.dist (n + d - 65536) n then n + d - 131072
        else n + d - 65536) n ≤ Nat.dist c n
      then (if Nat.dist (n + d - 131072) n ≤ Nat.dist (n + d - 65536) n then n + d - 131072 else n + d - 65536)
      else c) = unwrapped n d := by
  have back : Nat.dist (n + d - 65536) n = 65536 - d := by unfold Nat.dist; omega
  have off : 65536 < Nat.dist (n + d - 131072) n := by unfold Nat.dist; omega
  have nearer : ¬Nat.dist (n + d - 131072) n ≤ Nat.dist (n + d - 65536) n := by omega
  rw [if_neg nearer, back]
  unfold unwrapped
  obtain ⟨rfl, small⟩ | ⟨far, wraps⟩ := last
  · have on : Nat.dist (n + d) n = d := by unfold Nat.dist; omega
    rw [on]
    by_cases less : 65536 - d ≤ d
    · rw [if_pos less, if_neg (by omega)]
    · rw [if_neg less, if_pos ⟨by omega, small⟩]
  · have on : 65536 < Nat.dist c n := by unfold Nat.dist; omega
    rw [if_pos (by omega), if_neg (by omega)]

theorem toNat_absDiff (a b : UInt32) : (absDiff a b).toNat = Nat.dist a.toNat b.toNat := by
  unfold absDiff Nat.dist
  split
  · rename_i less
    rw [UInt32.toNat_sub_of_le _ _ (UInt32.le_of_lt less)]
    have := UInt32.lt_iff_toNat_lt.mp less
    omega
  · rename_i least
    rw [UInt32.toNat_sub_of_le _ _ (UInt32.not_lt.mp least)]
    have := UInt32.le_iff_toNat_le.mp (UInt32.not_lt.mp least)
    omega

/-- Without its low 16 bits. -/
theorem toNat_base (n : UInt32) : (n &&& ~~~0xffff).toNat = n.toNat / 65536 * 65536 := by
  have mask : ∀ i < 32, (~~~0xffff#32).getLsbD i = decide (16 ≤ i) := by decide
  have shifted : n.toBitVec &&& ~~~0xffff#32 = (n.toBitVec >>> 16) <<< 16 := by
    refine BitVec.eq_of_getLsbD_eq fun i small => ?_
    rw [BitVec.getLsbD_and, mask i small, BitVec.getLsbD_shiftLeft, BitVec.getLsbD_ushiftRight]
    by_cases low : 16 ≤ i
    · simp [low, small, Nat.add_sub_cancel' low]
    · simp [low]
  calc (n &&& ~~~0xffff).toNat = (n.toBitVec &&& ~~~0xffff#32).toNat := rfl
    _ = ((n.toBitVec >>> 16) <<< 16).toNat := by rw [shifted]
    _ = n.toNat / 65536 * 65536 := by
      have small := n.toNat_lt
      simp [BitVec.toNat_shiftLeft, BitVec.toNat_ushiftRight, Nat.shiftLeft_eq, Nat.shiftRight_eq_div_pow]
      omega

private theorem minOn?_three (f : UInt32 → UInt32) (a b c : UInt32) :
    [a, b, c].minOn? f =
      some (if f (if f a ≤ f b then a else b) ≤ f c then (if f a ≤ f b then a else b) else c) := rfl

/-- The three candidates, as the release computes them. -/
private theorem toNat_candidates {base : UInt32} (high : 65536 ≤ base.toNat) (seq : UInt16) :
    (base - 65536 + seq.toUInt32).toNat = base.toNat - 65536 + seq.toNat ∧
      (base.toNat + 65536 ≤ 2 ^ 32 → (base + seq.toUInt32).toNat = base.toNat + seq.toNat) ∧
      (base + 65536 + seq.toUInt32).toNat = (base.toNat + 65536 + seq.toNat) % 2 ^ 32 := by
  have small := base.toNat_lt
  have short := seq.toNat_lt
  have back : (base - 65536).toNat = base.toNat - 65536 := UInt32.toNat_sub_of_le _ _ (UInt32.le_iff_toNat_le.mpr high)
  refine ⟨?_, fun room => ?_, ?_⟩
  · rw [UInt32.toNat_add, back, UInt16.toNat_toUInt32, Nat.mod_eq_of_lt (by omega)]
  · rw [UInt32.toNat_add, UInt16.toNat_toUInt32, Nat.mod_eq_of_lt (by omega)]
  · rw [UInt32.toNat_add, UInt32.toNat_add, UInt16.toNat_toUInt32, Nat.mod_add_mod]
    rfl

variable {P : Type} {jitter : Jitter P}

theorem toNat_unwrap {newest : UInt32} (seen : jitter.newest = some newest) (high : 65536 ≤ newest.toNat)
    (seq : UInt16) :
    (jitter.unwrap (m := Id) seq).toNat = unwrapped newest.toNat (ahead newest.toNat seq.toNat) := by
  have small := newest.toNat_lt
  have short := seq.toNat_lt
  have base := toNat_base newest
  unfold unwrap
  rw [seen]
  simp only [bind, pure, Arithmetic.add]
  generalize newest &&& ~~~0xffff = b at base ⊢
  obtain ⟨far, near, beyond⟩ := toNat_candidates (show 65536 ≤ b.toNat by omega) seq
  rw [minOn?_three, Option.getD_some]
  simp only [apply_ite UInt32.toNat, UInt32.le_iff_toNat_le, toNat_absDiff, far, near (by omega), beyond]
  by_cases reaches : newest.toNat % 65536 ≤ seq.toNat
  · have d : ahead newest.toNat seq.toNat = seq.toNat - newest.toNat % 65536 := by unfold ahead; omega
    have low : b.toNat - 65536 + seq.toNat = newest.toNat + ahead newest.toNat seq.toNat - 65536 := by omega
    have mid : b.toNat + seq.toNat = newest.toNat + ahead newest.toNat seq.toNat := by omega
    rw [low, mid]
    exact nearest_ahead high (by omega) (by omega) (by omega)
  · have d : ahead newest.toNat seq.toNat = seq.toNat + 65536 - newest.toNat % 65536 := by unfold ahead; omega
    have low : b.toNat - 65536 + seq.toNat = newest.toNat + ahead newest.toNat seq.toNat - 131072 := by omega
    have mid : b.toNat + seq.toNat = newest.toNat + ahead newest.toNat seq.toNat - 65536 := by omega
    rw [low, mid]
    exact nearest_behind (by omega) (by omega) (by omega)

end HitEnter.Calls.Jitter
