import Mathlib

/-! The first few items in the order of a key: an item is among them if and only if
few enough items come before it. -/

namespace HitEnter.Lib.Ranks

variable {α β : Type} [LinearOrder β]

/-- The items in the order of `key`. -/
def sorted (key : α → β) (items : List α) : List α := items.insertionSort fun a b => key a ≤ key b

/-- How many items come before `x`. -/
def rank (key : α → β) (items : List α) (x : α) : Nat := items.countP fun y => key y < key x

variable {key : α → β} {items : List α}

@[simp] theorem mem_sorted {x : α} : x ∈ sorted key items ↔ x ∈ items :=
  (List.perm_insertionSort _ items).mem_iff

private theorem rank_sorted (x : α) : rank key (sorted key items) x = rank key items x :=
  (List.perm_insertionSort _ items).countP_eq _

/-- Keys of their own are in strict order once sorted. -/
private theorem sorted_strict (own : (items.map key).Nodup) :
    (sorted key items).Pairwise fun a b => key a < key b := by
  have ordered : (sorted key items).Pairwise fun a b => key a ≤ key b :=
    List.pairwise_insertionSort (fun a b => key a ≤ key b) items
  have apart : (sorted key items).Pairwise fun a b => key a ≠ key b :=
    List.pairwise_map.mp (((List.perm_insertionSort _ items).map key).nodup_iff.mpr own)
  exact (ordered.and apart).imp fun ⟨le, ne⟩ => lt_of_le_of_ne le ne

/-- Items with keys of their own that are the same where `keep` holds are kept in one order. -/
theorem filter_sorted_congr {others : List α} {keep : α → Bool} (own : (items.map key).Nodup)
    (own' : (others.map key).Nodup) (same : ∀ x, keep x = true → (x ∈ items ↔ x ∈ others)) :
    (sorted key items).filter keep = (sorted key others).filter keep := by
  have strict := (sorted_strict own).filter keep
  have strict' := (sorted_strict own').filter keep
  have distinct : ((sorted key items).filter keep).Nodup := strict.imp fun less same => (same ▸ less).false
  have distinct' : ((sorted key others).filter keep).Nodup := strict'.imp fun less same => (same ▸ less).false
  refine List.Perm.eq_of_pairwise (fun a b _ _ less greater => ?_) strict strict'
    ((List.perm_ext_iff_of_nodup distinct distinct').mpr fun x => ?_)
  · exact absurd (less.trans greater) (lt_irrefl _)
  · simp only [List.mem_filter, mem_sorted]
    exact and_congr_left (same x)

private theorem mem_take_iff (strict : items.Pairwise fun a b => key a < key b) (n : Nat) (x : α) :
    x ∈ items.take n ↔ x ∈ items ∧ rank key items x < n := by
  induction items generalizing n with
  | nil => simp
  | cons first rest ih =>
    obtain ⟨least, strict⟩ := List.pairwise_cons.mp strict
    cases n with
    | zero => simp
    | succ n =>
      rw [List.take_succ_cons, List.mem_cons, ih strict, List.mem_cons]
      by_cases same : x = first
      · subst same
        have none : rank key (x :: rest) x = 0 := by
          refine List.countP_eq_zero.mpr fun y member => ?_
          rcases List.mem_cons.mp member with rfl | later
          · simp
          · simpa using (least y later).le
        simp [none]
      · have ranked (member : x ∈ rest) : rank key (first :: rest) x = rank key rest x + 1 := by
          simp [rank, least x member]
        constructor
        · rintro (here | ⟨member, few⟩)
          · exact absurd here same
          · exact ⟨.inr member, by rw [ranked member]; omega⟩
        · rintro ⟨here | member, few⟩
          · exact absurd here same
          · rw [ranked member] at few
            exact .inr ⟨member, by omega⟩

/-- The first `n` items are those with fewer than `n` before them. -/
theorem mem_take_sorted (own : (items.map key).Nodup) (n : Nat) (x : α) :
    x ∈ (sorted key items).take n ↔ x ∈ items ∧ rank key items x < n := by
  rw [mem_take_iff (sorted_strict own), mem_sorted, rank_sorted]

/-- What is kept of the first few is the first few of what is kept, unless room for more
was taken by what is not. -/
theorem filter_take_eq_iff {keep : α → Bool} {items : List α} {n : Nat} :
    (items.take n).filter keep = (items.filter keep).take n ↔
      (∀ x ∈ items.take n, keep x = true) ∨ ∀ x ∈ items.drop n, keep x = false := by
  have whole : items.filter keep = (items.take n).filter keep ++ (items.drop n).filter keep := by
    rw [← List.filter_append, List.take_append_drop]
  have few : ((items.take n).filter keep).length ≤ (items.take n).length := List.length_filter_le keep _
  have most : (items.take n).length ≤ n := List.length_take_le n items
  rw [whole, List.take_append, List.take_of_length_le (few.trans most), List.self_eq_append_right, List.take_eq_nil_iff,
    List.filter_eq_nil_iff, Nat.sub_eq_zero_iff_le]
  simp only [Bool.not_eq_true]
  refine or_congr_left' fun later => ?_
  have full : (items.take n).length = n := by
    rw [List.length_take, min_eq_left]
    by_contra short
    exact later fun x member => by simp [List.drop_eq_nil_of_le (not_le.mp short).le] at member
  rw [← List.length_filter_eq_length_iff, full]
  omega

end HitEnter.Lib.Ranks
