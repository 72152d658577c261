import HitEnter.Lib.KeepBest
import HitEnter.Lib.Maps

/-! Maps that a list goes into item by item: for each key the best of its items, or all of
them together. -/

namespace HitEnter.Lib.Keyed

open KeepBest

variable {κ α β : Type} [Ord κ] [Std.TransOrd κ] [Std.LawfulEqOrd κ] [DecidableEq κ]

/-! ### The best of each key -/

/-- An item takes the place of its key if that is free, or held by one that it beats. -/
def offerAt (key : α → κ) (better : α → α → Bool) (held : Std.ExtTreeMap κ α compare) (x : α) :
    Std.ExtTreeMap κ α compare :=
  if held[key x]?.all (better x) then held.insert (key x) x else held

def bestBy (key : α → κ) (better : α → α → Bool) (items : List α) : Std.ExtTreeMap κ α compare :=
  items.foldl (offerAt key better) ∅

variable {key : α → κ} {better : α → α → Bool}

theorem getElem?_offerAt (held : Std.ExtTreeMap κ α compare) (x : α) (k : κ) :
    (offerAt key better held x)[k]? = if key x = k then offer better held[k]? x else held[k]? := by
  unfold offerAt
  by_cases own : key x = k
  · subst own
    cases found : held[key x]? with
    | none => simp [offer]
    | some y => by_cases beats : better x y = true <;> simp [offer, beats, found]
  · rw [if_neg own]
    split
    · rw [Std.ExtTreeMap.getElem?_insert, if_neg (by simpa using own)]
    · rfl

/-- What is held under a key is the best of the items of that key. -/
theorem getElem?_bestBy (items : List α) (k : κ) :
    (bestBy key better items)[k]? = best better (items.filter fun x => key x = k) := by
  have general (held : Std.ExtTreeMap κ α compare) : (items.foldl (offerAt key better) held)[k]? =
      (items.filter fun x => key x = k).foldl (offer better) held[k]? := by
    induction items generalizing held with
    | nil => rfl
    | cons x rest ih =>
      rw [List.foldl_cons, ih, getElem?_offerAt]
      by_cases own : key x = k <;> simp [own]
  rw [bestBy, general, Std.ExtTreeMap.getElem?_empty, best]

theorem key_of_bestBy {items : List α} {k : κ} {x : α} (found : (bestBy key better items)[k]? = some x) : key x = k := by
  rw [getElem?_bestBy] at found
  exact of_decide_eq_true (List.mem_filter.mp (best_mem found)).2

/-! ### All items of each key -/

/-- An item is added to what there is under its key. -/
def tallyAt {σ : Type} (key : α → κ) (add : σ → α → σ) (start : σ) (held : Std.ExtTreeMap κ σ compare) (x : α) :
    Std.ExtTreeMap κ σ compare :=
  held.insert (key x) (add (held[key x]?.getD start) x)

/-- Under a key is what its items add up to. -/
theorem getElem?_tally {σ : Type} {add : σ → α → σ} {start : σ} (items : List α) (held : Std.ExtTreeMap κ σ compare)
    (k : κ) : (items.foldl (tallyAt key add start) held)[k]?.getD start =
      (items.filter fun x => key x = k).foldl add (held[k]?.getD start) := by
  induction items generalizing held with
  | nil => rfl
  | cons x rest ih =>
    rw [List.foldl_cons, ih, tallyAt, Std.ExtTreeMap.getElem?_insert]
    by_cases own : key x = k <;> simp [own]

def pushAt : Std.ExtTreeMap κ (List β) compare → κ × β → Std.ExtTreeMap κ (List β) compare :=
  tallyAt Prod.fst (fun row entry => row ++ [entry.2]) []

/-- What is under a key is what was put there, in its order. -/
theorem getElem?_pushAt (entries : List (κ × β)) (rows : Std.ExtTreeMap κ (List β) compare) (k : κ) :
    (entries.foldl pushAt rows)[k]?.getD [] = rows[k]?.getD [] ++ (entries.filter fun entry => entry.1 = k).map Prod.snd := by
  rw [pushAt, getElem?_tally]
  generalize rows[k]?.getD [] = front
  induction entries.filter fun entry => entry.1 = k generalizing front with
  | nil => simp
  | cons entry rest ih => simp [ih]

/-- With keys of their own, what a list of entries holds under a key is what stands there. -/
theorem getElem?_ofList_eq_some {entries : List (κ × β)} (own : (entries.map Prod.fst).Nodup) {k : κ} {v : β} :
    (Std.ExtTreeMap.ofList entries compare)[k]? = some v ↔ (k, v) ∈ entries := by
  have apart : entries.Pairwise fun a b => ¬compare a.1 b.1 = .eq :=
    (List.pairwise_map.mp own).imp fun differ same => differ (Std.LawfulEqCmp.compare_eq_iff_eq.mp same)
  have found {v : β} (member : (k, v) ∈ entries) : (Std.ExtTreeMap.ofList entries compare)[k]? = some v :=
    Std.ExtTreeMap.getElem?_ofList_of_mem (Std.LawfulEqCmp.compare_eq_iff_eq.mpr rfl) apart member
  refine ⟨fun held => ?_, found⟩
  by_cases listed : k ∈ entries.map Prod.fst
  · obtain ⟨⟨k', w⟩, member, rfl⟩ := List.mem_map.mp listed
    obtain rfl : w = v := Option.some.inj ((found member).symm.trans held)
    exact member
  · rw [Std.ExtTreeMap.getElem?_ofList_of_contains_eq_false (by simpa using listed)] at held
    cases held

end HitEnter.Lib.Keyed
