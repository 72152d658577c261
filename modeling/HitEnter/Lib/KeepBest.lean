import Mathlib

/-! Keeping the best item seen so far. Under a strict order that is total on the
items, which one is kept depends on which items were seen, never on when. -/

namespace HitEnter.Lib.KeepBest

variable {α : Type}

/-- What a slot holds after `x` is offered: the first item, then whatever beats
the one held. -/
def offer (better : α → α → Bool) (slot : Option α) (x : α) : Option α :=
  match slot with
  | none => some x
  | some held => if better x held then some x else some held

/-- The item kept of a list. -/
def best (better : α → α → Bool) (items : List α) : Option α := items.foldl (offer better) none

variable {better : α → α → Bool}

private theorem foldl_offer_mem {items : List α} {slot : Option α}
    (found : items.foldl (offer better) slot = some kept) : slot = some kept ∨ kept ∈ items := by
  induction items generalizing slot with
  | nil => exact .inl found
  | cons x rest ih =>
    rcases ih found with now | later
    · cases slot with
      | none => exact .inr (Option.some.inj now ▸ List.mem_cons_self)
      | some held =>
        simp only [offer] at now
        split at now
        · exact .inr (Option.some.inj now ▸ List.mem_cons_self)
        · exact .inl now
    · exact .inr (List.mem_cons_of_mem x later)

theorem best_mem {items : List α} (found : best better items = some kept) : kept ∈ items := by
  simpa using foldl_offer_mem found

/-- The order facts the choice rests on, for the items of one list. -/
structure StrictTotalOn (better : α → α → Bool) (items : List α) : Prop where
  irrefl : ∀ x ∈ items, better x x = false
  trans : ∀ x ∈ items, ∀ y ∈ items, ∀ z ∈ items,
    better x y = true → better y z = true → better x z = true
  total : ∀ x ∈ items, ∀ y ∈ items, x ≠ y → better x y = true ∨ better y x = true

theorem StrictTotalOn.subset {items others : List α} (order : StrictTotalOn better items)
    (subset : others ⊆ items) : StrictTotalOn better others where
  irrefl x hx := order.irrefl x (subset hx)
  trans x hx y hy z hz := order.trans x (subset hx) y (subset hy) z (subset hz)
  total x hx y hy := order.total x (subset hx) y (subset hy)

/-- The item held after the list is one of those offered, and none of them beats it. -/
private theorem foldl_offer_unbeaten (seen items : List α)
    (order : StrictTotalOn better (seen ++ items)) (held : α) (own : held ∈ seen)
    (unbeaten : ∀ x ∈ seen, better x held = false) :
    ∃ kept ∈ seen ++ items, items.foldl (offer better) (some held) = some kept ∧
      ∀ x ∈ seen ++ items, better x kept = false := by
  induction items generalizing seen held with
  | nil => exact ⟨held, by simpa using own, rfl, by simpa using unbeaten⟩
  | cons x rest ih =>
    have order' : StrictTotalOn better ((seen ++ [x]) ++ rest) := by simpa using order
    simp only [List.foldl_cons, offer]
    split
    · rename_i beats
      have clear : ∀ y ∈ seen ++ [x], better y x = false := by
        intro y member
        rcases List.mem_append.mp member with earlier | last
        · by_contra beaten
          have through := order.trans y (by simp [earlier]) x (by simp) held (by simp [own])
            (by simpa using beaten) beats
          simp [unbeaten y earlier] at through
        · rw [List.mem_singleton.mp last]
          exact order.irrefl x (by simp)
      simpa using ih (seen ++ [x]) order' x (by simp) clear
    · rename_i weaker
      have clear : ∀ y ∈ seen ++ [x], better y held = false := by
        intro y member
        rcases List.mem_append.mp member with earlier | last
        · exact unbeaten y earlier
        · rw [List.mem_singleton.mp last]
          simpa using weaker
      simpa using ih (seen ++ [x]) order' held (by simp [own]) clear

theorem best_spec {items : List α} (order : StrictTotalOn better items) (nonempty : items ≠ []) :
    ∃ kept ∈ items, best better items = some kept ∧ ∀ x ∈ items, better x kept = false := by
  cases items with
  | nil => exact absurd rfl nonempty
  | cons x rest =>
    have first : ∀ y ∈ [x], better y x = false := by
      intro y member
      rw [List.mem_singleton.mp member]
      exact order.irrefl x List.mem_cons_self
    simpa [best, offer] using
      foldl_offer_unbeaten [x] rest (by simpa using order) x (by simp) first

/-- An item that none beats is the one kept. -/
theorem best_eq_some {items : List α} (order : StrictTotalOn better items) (member : x ∈ items)
    (unbeaten : ∀ y ∈ items, better y x = false) : best better items = some x := by
  obtain ⟨kept, own, found, clear⟩ := best_spec order (List.ne_nil_of_mem member)
  by_cases same : kept = x
  · rw [found, same]
  · rcases order.total kept own x member same with beats | beaten
    · simp [unbeaten kept own] at beats
    · simp [clear x member] at beaten

/-- An item that beats every other is the one kept, whatever the others are to each
other. -/
theorem best_of_beats {items : List α} (member : x ∈ items)
    (beats : ∀ y ∈ items, y = x ∨ better x y = true ∧ better y x = false) : best better items = some x := by
  obtain ⟨front, back, rfl⟩ := List.append_of_mem member
  have taken : offer better (best better front) x = some x := by
    cases held : best better front with
    | none => rfl
    | some y =>
      rcases beats y (List.mem_append_left _ (best_mem held)) with rfl | ⟨stronger, _⟩
      · simp [offer]
      · simp [offer, stronger]
  have stays : back.foldl (offer better) (some x) = some x := by
    have later : ∀ y ∈ back, y = x ∨ better x y = true ∧ better y x = false :=
      fun y here => beats y (List.mem_append_right _ (List.mem_cons_of_mem x here))
    clear beats member
    induction back with
    | nil => rfl
    | cons y rest ih =>
      have kept : offer better (some x) y = some x := by
        rcases later y List.mem_cons_self with rfl | ⟨_, weaker⟩
        · simp [offer]
        · simp [offer, weaker]
      rw [List.foldl_cons, kept]
      exact ih fun z here => later z (List.mem_cons_of_mem y here)
  rw [best, List.foldl_append, List.foldl_cons, ← best, taken, stays]

/-- Which item is kept depends only on which items were offered. -/
theorem best_congr {items others : List α} (order : StrictTotalOn better items)
    (same : ∀ x, x ∈ items ↔ x ∈ others) : best better items = best better others := by
  have order' : StrictTotalOn better others := order.subset fun x => (same x).mpr
  by_cases none : items = []
  · have none' : others = [] := List.eq_nil_iff_forall_not_mem.mpr fun x member => by
      simpa [none] using (same x).mpr member
    rw [none, none']
  · obtain ⟨kept, member, found, unbeaten⟩ := best_spec order none
    rw [found, best_eq_some order' ((same kept).mp member) fun y here => unbeaten y ((same y).mpr here)]

/-! ### Dated items -/

/-- A later item beats an earlier one, and never the other way around. -/
structure Later {δ : Type} [LinearOrder δ] (better : α → α → Bool) (date : α → δ) : Prop where
  of_lt : ∀ x y, date y < date x → better x y = true
  le : ∀ x y, better x y = true → date y ≤ date x

theorem best_concat (items : List α) (x : α) : best better (items ++ [x]) = offer better (best better items) x := by
  rw [best, List.foldl_append, List.foldl_cons, List.foldl_nil, ← best]

section Dated
variable {δ : Type} [LinearOrder δ] {date : α → δ}

/-- What is kept of dated items is one of the latest. -/
theorem best_latest (later : Later better date) {items : List α} (nonempty : items ≠ []) :
    ∃ kept ∈ items, best better items = some kept ∧ ∀ x ∈ items, date x ≤ date kept := by
  induction items using List.reverseRecOn with
  | nil => exact absurd rfl nonempty
  | append_singleton front x ih =>
    rw [best_concat]
    by_cases first : front = []
    · subst first
      exact ⟨x, by simp, rfl, by simp⟩
    obtain ⟨held, member, found, latest⟩ := ih first
    rw [found, offer]
    by_cases beats : better x held = true
    · refine ⟨x, by simp, if_pos beats, fun y listed => ?_⟩
      rcases List.mem_append.mp listed with earlier | last
      · exact (latest y earlier).trans (later.le x held beats)
      · rw [List.mem_singleton.mp last]
    · refine ⟨held, List.mem_append_left _ member, if_neg beats, fun y listed => ?_⟩
      rcases List.mem_append.mp listed with earlier | last
      · exact latest y earlier
      · rw [List.mem_singleton.mp last]
        exact not_lt.mp fun less => beats (later.of_lt x held less)

/-- Where the items of a kind win a tie against all others, and only they do, the item kept is of that
kind as soon as one of the latest is. -/
theorem best_tie (later : Later better date) {wins : α → Prop} (tie : ∀ x y, date x = date y → (better x y = true ↔ wins x))
    {items : List α} {kept x : α} (found : best better items = some kept) (member : x ∈ items) (special : wins x)
    (latest : date kept ≤ date x) : wins kept := by
  induction items using List.reverseRecOn generalizing kept with
  | nil => cases member
  | append_singleton front y ih =>
    rw [best_concat] at found
    by_cases first : front = []
    · subst first
      cases found
      rwa [← List.mem_singleton.mp member]
    obtain ⟨held, own, before, top⟩ := best_latest later first
    rw [before, offer] at found
    by_cases beats : better y held = true
    · rw [if_pos beats] at found
      cases found
      rcases List.mem_append.mp member with earlier | last
      · have same : date y = date held :=
          le_antisymm (latest.trans (top x earlier)) (later.le y held beats)
        exact (tie y held same).mp beats
      · rwa [← List.mem_singleton.mp last]
    · rw [if_neg beats] at found
      obtain rfl : held = kept := Option.some.inj found
      rcases List.mem_append.mp member with earlier | last
      · exact ih before earlier latest
      · obtain rfl := List.mem_singleton.mp last
        rcases latest.lt_or_eq with less | same
        · exact absurd (later.of_lt x held less) beats
        · exact absurd ((tie x held same.symm).mpr special) beats

end Dated

end HitEnter.Lib.KeepBest
