import HitEnter.Lib.Ranks

/-! What a budget lets in of a list: the longest run from its start that weighs no more.
Two ways to weigh let in the same whatever the budget only if they weigh the same. -/

namespace HitEnter.Lib.Budget

open Ranks

variable {α β : Type} [LinearOrder β]

/-! ### Sorted with copies -/

section Copies
variable {key : α → β}

private theorem insert_first {x : α} {items : List α} (first : ∀ y ∈ items, key x ≤ key y) :
    items.orderedInsert (fun a b => key a ≤ key b) x = x :: items := by
  cases items with
  | nil => rfl
  | cons y rest => exact List.orderedInsert_cons_of_le _ rest (first y List.mem_cons_self)

private theorem inserts_first {x : α} {items : List α} (first : ∀ y ∈ items, key x ≤ key y) (n : ℕ) :
    (List.orderedInsert (fun a b => key a ≤ key b) x)^[n] items = List.replicate n x ++ items := by
  induction n with
  | zero => rfl
  | succ n ih =>
    rw [Function.iterate_succ_apply', ih, insert_first, List.replicate_succ, List.cons_append]
    intro y member
    rcases List.mem_append.mp member with copy | later
    · exact (List.eq_of_mem_replicate copy ▸ le_rfl)
    · exact first y later

private theorem inserts_cons {x y : α} (past : ¬ key x ≤ key y) (n : ℕ) (items : List α) :
    (List.orderedInsert (fun a b => key a ≤ key b) x)^[n] (y :: items) =
      y :: (List.orderedInsert (fun a b => key a ≤ key b) x)^[n] items := by
  induction n generalizing items with
  | zero => rfl
  | succ n ih =>
    rw [Function.iterate_succ_apply, List.orderedInsert_of_not_le _ items past, ih, Function.iterate_succ_apply]

private theorem inserts_past {x y : α} (past : ¬ key x ≤ key y) (n m : ℕ) (items : List α) :
    (List.orderedInsert (fun a b => key a ≤ key b) x)^[n] (List.replicate m y ++ items) =
      List.replicate m y ++ (List.orderedInsert (fun a b => key a ≤ key b) x)^[n] items := by
  induction m with
  | zero => rfl
  | succ m ih => rw [List.replicate_succ, List.cons_append, List.cons_append, ← ih, inserts_cons past]

private theorem inserts_copies {x : α} {items : List α} (ordered : items.Pairwise fun a b => key a ≤ key b)
    (copies : α → ℕ) : (List.orderedInsert (fun a b => key a ≤ key b) x)^[copies x]
        (items.flatMap fun y => List.replicate (copies y) y) =
      (items.orderedInsert (fun a b => key a ≤ key b) x).flatMap fun y => List.replicate (copies y) y := by
  induction items with
  | nil =>
    have first : ∀ y ∈ ([] : List α), key x ≤ key y := fun y member => absurd member List.not_mem_nil
    simpa using inserts_first first (copies x)
  | cons y rest ih =>
    obtain ⟨least, ordered⟩ := List.pairwise_cons.mp ordered
    by_cases before : key x ≤ key y
    · rw [List.orderedInsert_cons_of_le _ rest before]
      change _ = List.replicate (copies x) x ++ (y :: rest).flatMap _
      refine inserts_first (fun z member => ?_) (copies x)
      obtain ⟨origin, here, copy⟩ := List.mem_flatMap.mp member
      rw [List.eq_of_mem_replicate copy]
      rcases List.mem_cons.mp here with rfl | later
      · exact before
      · exact before.trans (least origin later)
    · rw [List.orderedInsert_of_not_le _ rest before, List.flatMap_cons, List.flatMap_cons, inserts_past before,
        ih ordered]

/-- Sorting keeps the copies of an item together, wherever they come from. -/
theorem sorted_copies (copies : α → ℕ) (items : List α) :
    sorted key (items.flatMap fun x => List.replicate (copies x) x) =
      (sorted key items).flatMap fun x => List.replicate (copies x) x := by
  induction items with
  | nil => rfl
  | cons x rest ih =>
    have ordered : (sorted key rest).Pairwise fun a b => key a ≤ key b :=
      List.pairwise_insertionSort (fun a b => key a ≤ key b) rest
    change _ = ((sorted key rest).orderedInsert (fun a b => key a ≤ key b) x).flatMap _
    rw [← inserts_copies ordered, ← ih, List.flatMap_cons]
    generalize rest.flatMap (fun x => List.replicate (copies x) x) = others
    induction copies x with
    | zero => rfl
    | succ n step =>
      rw [Function.iterate_succ_apply', ← step]
      rfl

theorem sorted_filter (keep : α → Bool) (items : List α) :
    sorted key (items.filter keep) = (sorted key items).filter keep := by
  have once : ∀ items : List α, items.filter keep =
      items.flatMap fun x => List.replicate (if keep x then 1 else 0) x := by
    intro items
    induction items with
    | nil => rfl
    | cons x rest ih =>
      rw [List.filter_cons, List.flatMap_cons, ← ih]
      split <;> rfl
  rw [once, once, sorted_copies]

end Copies

/-! ### What fits -/

section Weights
variable (weight : α → ℕ)

/-- The longest run from the start that weighs no more than `cap`. -/
def fits : ℕ → List α → List α
  | _, [] => []
  | cap, x :: rest => if weight x ≤ cap then x :: fits (cap - weight x) rest else []

/-- What weighs something and is reached with more than `cap` held. -/
def excess (cap : ℕ) : ℕ → List α → List α
  | _, [] => []
  | held, x :: rest =>
    if 0 < weight x ∧ cap < held + weight x then x :: excess cap (held + weight x) rest
    else excess cap (held + weight x) rest

variable {weight}

/-- A run from the start fits if and only if it is part of the longest that does. -/
theorem prefix_fits_iff {cap : ℕ} {items run : List α} :
    run <+: fits weight cap items ↔ run <+: items ∧ (run.map weight).sum ≤ cap := by
  induction items generalizing cap run with
  | nil => simp +contextual [fits]
  | cons x rest ih =>
    cases run with
    | nil => simp
    | cons first run =>
      rw [fits]
      split
      · rename_i light
        rw [List.cons_prefix_cons, List.cons_prefix_cons, ih, List.map_cons, List.sum_cons, and_assoc]
        refine and_congr_right fun same => and_congr_right fun _ => ?_
        rw [same]
        omega
      · rename_i heavy
        rw [List.cons_prefix_cons, List.map_cons, List.sum_cons]
        simp only [List.prefix_nil, reduceCtorEq, false_iff, not_and, not_le]
        rintro ⟨rfl, _⟩
        omega

/-- What fits is told by being a run that does, of which every other is a part. -/
theorem eq_fits_iff {cap : ℕ} {items kept : List α} : kept = fits weight cap items ↔
    kept <+: items ∧ (kept.map weight).sum ≤ cap ∧
      ∀ run, run <+: items → (run.map weight).sum ≤ cap → run <+: kept := by
  constructor
  · rintro rfl
    obtain ⟨start, light⟩ := prefix_fits_iff.mp (List.prefix_refl (fits weight cap items))
    exact ⟨start, light, fun run first small => prefix_fits_iff.mpr ⟨first, small⟩⟩
  · rintro ⟨start, light, longest⟩
    obtain ⟨start', light'⟩ := prefix_fits_iff.mp (List.prefix_refl (fits weight cap items))
    have part := prefix_fits_iff.mpr ⟨start, light⟩
    exact part.eq_of_length_le (longest _ start' light').length_le

theorem fits_congr {other : α → ℕ} {cap : ℕ} {items : List α} (same : ∀ x ∈ items, weight x = other x) :
    fits weight cap items = fits other cap items := by
  induction items generalizing cap with
  | nil => rfl
  | cons x rest ih =>
    obtain ⟨first, later⟩ := List.forall_mem_cons.mp same
    rw [fits, fits, first, ih later]

theorem mem_of_mem_excess {cap held : ℕ} {items : List α} {x : α} (past : x ∈ excess weight cap held items) :
    x ∈ items ∧ 0 < weight x := by
  induction items generalizing held with
  | nil => simp [excess] at past
  | cons y rest ih =>
    rw [excess] at past
    split at past
    · rename_i due
      rcases List.mem_cons.mp past with rfl | later
      · exact ⟨List.mem_cons_self, due.1⟩
      · exact ⟨List.mem_cons_of_mem y (ih later).1, (ih later).2⟩
    · exact ⟨List.mem_cons_of_mem y (ih past).1, (ih past).2⟩

/-- What weighs nothing plays no part. -/
theorem excess_filter {cap held : ℕ} {items : List α} :
    excess weight cap held (items.filter fun x => 0 < weight x) = excess weight cap held items := by
  induction items generalizing held with
  | nil => rfl
  | cons x rest ih =>
    by_cases weighs : 0 < weight x
    · rw [List.filter_cons_of_pos (by simpa using weighs), excess, excess, ih]
    · rw [List.filter_cons_of_neg (by simpa using weighs), excess, if_neg fun due => weighs due.1, ih,
        Nat.eq_zero_of_not_pos weighs, Nat.add_zero]

private theorem excess_all {cap held : ℕ} {items : List α} (positive : ∀ x ∈ items, 0 < weight x) (full : cap < held) :
    excess weight cap held items = items := by
  induction items generalizing held with
  | nil => rfl
  | cons x rest ih =>
    rw [excess, if_pos ⟨positive x List.mem_cons_self, by omega⟩,
      ih (fun y later => positive y (List.mem_cons_of_mem x later)) (by omega)]

/-- Two ways to weigh that leave out the same at every budget up to what they hold weigh the
same. -/
theorem excess_agree_iff {other : α → ℕ} {held most : ℕ} {items : List α} (distinct : items.Nodup)
    (room : held + (items.map weight).sum ≤ most) :
    (∀ cap ≤ most, ∀ x ∈ items, x ∈ excess weight cap held items ↔ x ∈ excess other cap held items) ↔
      ∀ x ∈ items, weight x = other x := by
  induction items generalizing held with
  | nil => simp
  | cons x rest ih =>
    obtain ⟨own, distinct⟩ := List.nodup_cons.mp distinct
    rw [List.map_cons, List.sum_cons, ← Nat.add_assoc] at room
    have first : ∀ (w : α → ℕ) (cap : ℕ),
        x ∈ excess w cap held (x :: rest) ↔ 0 < w x ∧ cap < held + w x := by
      intro w cap
      have apart : x ∉ excess w cap (held + w x) rest := fun listed => own (mem_of_mem_excess listed).1
      rw [excess]
      split
      · rename_i due
        simp [due]
      · rename_i due
        simp [apart, due]
    have others : ∀ (w : α → ℕ) (cap : ℕ), ∀ y ∈ rest,
        (y ∈ excess w cap held (x :: rest) ↔ y ∈ excess w cap (held + w x) rest) := by
      intro w cap y member
      have differs : y ≠ x := fun same => own (same ▸ member)
      rw [excess]
      split <;> simp [differs]
    rw [List.forall_mem_cons, ← ih distinct room]
    constructor
    · intro agree
      -- The budgets just below and at what is held with `x` tell its weight.
      have same : weight x = other x := by
        have least := (first weight held).symm.trans ((agree held (by omega) x List.mem_cons_self).trans (first other held))
        have below := (first weight (held + weight x - 1)).symm.trans
          ((agree _ (by omega) x List.mem_cons_self).trans (first other _))
        have at_ := (first weight (held + weight x)).symm.trans
          ((agree _ (by omega) x List.mem_cons_self).trans (first other _))
        omega
      refine ⟨same, fun cap small y member => ?_⟩
      rw [← others weight cap y member, agree cap small y (List.mem_cons_of_mem x member), others other cap y member,
        same]
    · rintro ⟨same, agree⟩ cap small y member
      rcases List.mem_cons.mp member with rfl | later
      · rw [first, first, same]
      · rw [others weight cap y later, others other cap y later, ← same]
        exact agree cap small y later

section Distinct
variable [DecidableEq α]

/-- Where everything weighs something, what fits is what is not over. -/
theorem fits_eq_filter {cap held : ℕ} {items : List α} (positive : ∀ x ∈ items, 0 < weight x)
    (distinct : items.Nodup) (room : held ≤ cap) :
    fits weight (cap - held) items = items.filter fun x => x ∉ excess weight cap held items := by
  induction items generalizing held with
  | nil => rfl
  | cons x rest ih =>
    obtain ⟨other, distinct⟩ := List.nodup_cons.mp distinct
    have later : ∀ y ∈ rest, 0 < weight y := fun y member => positive y (List.mem_cons_of_mem x member)
    rw [fits]
    by_cases light : weight x ≤ cap - held
    · have under : ¬ (0 < weight x ∧ cap < held + weight x) := by omega
      have spared : x ∉ excess weight cap (held + weight x) rest := fun past => other (mem_of_mem_excess past).1
      rw [if_pos light, excess, if_neg under, List.filter_cons_of_pos (by simpa using spared),
        ← ih later distinct (by omega), Nat.sub_sub]
    · have first := positive x List.mem_cons_self
      have heavy : cap < held + weight x := by omega
      rw [if_neg light, excess, if_pos ⟨first, heavy⟩, excess_all later heavy]
      exact (List.filter_eq_nil_iff.mpr fun y member => by simpa [or_iff_not_imp_left] using member).symm

end Distinct

end Weights

/-! ### What there is room for -/

section Greedy
variable (must : α → Bool) (weight : α → ℕ) (cap most : ℕ)

/-- One after the other, what has to be in and what there is room for; sums stop at `most`. -/
def greedy : ℕ → List α → List α
  | _, [] => []
  | used, x :: rest =>
    if must x = true ∨ min (used + weight x) most ≤ cap then x :: greedy (min (used + weight x) most) rest
    else greedy used rest

variable {must weight cap most}

theorem greedy_sublist (used : ℕ) (items : List α) : (greedy must weight cap most used items).Sublist items := by
  induction items generalizing used with
  | nil => exact List.Sublist.slnil
  | cons x rest ih =>
    rw [greedy]
    split
    · exact (ih _).cons_cons x
    · exact (ih used).cons x

theorem mem_greedy_of_must {used : ℕ} {items : List α} {x : α} (member : x ∈ items) (needed : must x = true) :
    x ∈ greedy must weight cap most used items := by
  induction items generalizing used with
  | nil => cases member
  | cons y rest ih =>
    rw [greedy]
    rcases List.mem_cons.mp member with rfl | later
    · rw [if_pos (.inl needed)]
      exact List.mem_cons_self
    · split
      · exact List.mem_cons_of_mem y (ih later)
      · exact ih later

theorem greedy_all {used : ℕ} {items : List α} (wide : most ≤ cap) : greedy must weight cap most used items = items := by
  induction items generalizing used with
  | nil => rfl
  | cons x rest ih => rw [greedy, if_pos (.inr ((min_le_right _ most).trans wide)), ih]

theorem greedy_prefix (used : ℕ) (front back : List α) :
    greedy must weight cap most used front <+: greedy must weight cap most used (front ++ back) := by
  induction front generalizing used with
  | nil => exact List.nil_prefix
  | cons x rest ih =>
    rw [List.cons_append, greedy, greedy]
    split
    · exact (List.prefix_cons_inj x).mpr (ih _)
    · exact ih used

private theorem sum_greedy_le_from {real : ℕ} {items : List α} (small : cap < most)
    (first : items.Pairwise fun a b => must b = true → must a = true) :
    real + ((greedy must weight cap most (min real most) items).map weight).sum ≤
      max (max real cap) (real + ((items.filter must).map weight).sum) := by
  induction items generalizing real with
  | nil => simp [greedy]
  | cons x rest ih =>
    obtain ⟨ahead, first⟩ := List.pairwise_cons.mp first
    rw [greedy]
    have stops : min (min real most + weight x) most = min (real + weight x) most := by omega
    have taken := @ih (real + weight x) first
    by_cases needed : must x = true
    · rw [if_pos (.inl needed), List.filter_cons_of_pos needed, stops, List.map_cons, List.sum_cons, List.map_cons,
        List.sum_cons]
      omega
    · have none_ : rest.filter must = [] :=
        List.filter_eq_nil_iff.mpr fun y later holds => needed (ahead y later holds)
      have passed := @ih real first
      rw [none_] at taken passed
      rw [List.filter_cons_of_neg needed, none_, stops]
      split
      · rename_i room
        have light := room.resolve_left needed
        rw [List.map_cons, List.sum_cons]
        simp only [List.map_nil, List.sum_nil] at taken ⊢
        omega
      · exact passed

/-- What is in is no more than the cap, unless what has to be in is. -/
theorem sum_greedy_le {items : List α} (small : cap < most)
    (first : items.Pairwise fun a b => must b = true → must a = true) :
    ((greedy must weight cap most 0 items).map weight).sum ≤ max cap ((items.filter must).map weight).sum := by
  simpa using @sum_greedy_le_from _ must weight cap most 0 items small first

/-- There was no room for what is left out, with what was in before it. -/
theorem lt_of_left_out {used : ℕ} {before after : List α} {x : α}
    (out : x ∉ greedy must weight cap most used (before ++ x :: after)) :
    cap < used + ((greedy must weight cap most used before).map weight).sum + weight x := by
  induction before generalizing used with
  | nil =>
    rw [List.nil_append, greedy] at out
    split at out
    · exact absurd List.mem_cons_self out
    · rename_i full
      simp only [greedy, List.map_nil, List.sum_nil]
      omega
  | cons y rest ih =>
    rw [List.cons_append, greedy] at out
    rw [greedy]
    split at out
    · rename_i room
      have later := ih (fun member => out (List.mem_cons_of_mem y member))
      rw [if_pos room, List.map_cons, List.sum_cons]
      omega
    · rename_i full
      rw [if_neg full]
      exact ih out

end Greedy

end HitEnter.Lib.Budget
