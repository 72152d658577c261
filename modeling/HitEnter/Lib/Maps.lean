import Mathlib

/-! Ordered maps and sets, written out as a list and built again. -/

namespace HitEnter.Lib.Maps

variable {K V : Type} [Ord K] [Std.TransOrd K] [Std.LawfulEqOrd K] [DecidableEq K]

theorem ofList_toList (keys : Std.ExtTreeSet K compare) : .ofList keys.toList compare = keys := by
  refine Std.ExtTreeSet.ext_mem fun {k} => ?_
  simp [Std.ExtTreeSet.mem_toList]

theorem insertMany_keys (keys : Std.ExtTreeSet K compare) :
    (∅ : Std.ExtTreeSet K compare).insertMany keys.toList = keys := by
  rw [← Std.ExtTreeSet.ofList_eq_insertMany_empty, ofList_toList]

theorem insertMany_entries (entries : Std.ExtTreeMap K V compare) :
    (∅ : Std.ExtTreeMap K V compare).insertMany entries.toList = entries := by
  rw [← Std.ExtTreeMap.ofList_eq_insertMany_empty]
  refine Std.ExtTreeMap.ext_getElem? fun {k} => ?_
  cases found : entries[k]? with
  | some v =>
    refine Std.ExtTreeMap.getElem?_ofList_of_mem (Std.LawfulEqCmp.compare_eq_iff_eq.mpr rfl)
      Std.ExtTreeMap.distinct_keys_toList ?_
    exact Std.ExtTreeMap.mem_toList_iff_getElem?_eq_some.mpr found
  | none =>
    refine Std.ExtTreeMap.getElem?_ofList_of_contains_eq_false ?_
    have absent : k ∉ entries := by simp [Std.ExtTreeMap.mem_iff_isSome_getElem?, found]
    simpa using absent

/-- One value for every key of a set. -/
theorem getElem?_ofList_const (keys : Std.ExtTreeSet K compare) (v : V) (k : K) :
    (Std.ExtTreeMap.ofList (keys.toList.map fun k => (k, v)) compare)[k]? =
      if k ∈ keys then some v else none := by
  split
  · rename_i member
    refine Std.ExtTreeMap.getElem?_ofList_of_mem (k := k) (Std.LawfulEqCmp.compare_eq_iff_eq.mpr rfl) ?_ ?_
    · have distinct := keys.distinct_toList
      rw [List.pairwise_map]
      exact distinct
    · exact List.mem_map.mpr ⟨k, Std.ExtTreeSet.mem_toList.mpr member, rfl⟩
  · rename_i absent
    refine Std.ExtTreeMap.getElem?_ofList_of_contains_eq_false ?_
    simp [Std.ExtTreeSet.mem_toList, absent]

/-- A value for each key that has none. -/
theorem getElem?_foldl_insertIfNew (keys : List K) (entries : Std.ExtTreeMap K V compare) (v : V) (k : K) :
    (keys.foldl (fun es k => es.insertIfNew k v) entries)[k]? =
      entries[k]?.or (if k ∈ keys then some v else none) := by
  induction keys generalizing entries with
  | nil => simp
  | cons first rest ih =>
    rw [List.foldl_cons, ih, Std.ExtTreeMap.getElem?_insertIfNew]
    by_cases same : first = k
    · subst same
      cases found : entries[first]? with
      | none => simp [Std.ExtTreeMap.mem_iff_isSome_getElem?, found]
      | some w => simp [Std.ExtTreeMap.mem_iff_isSome_getElem?, found]
    · simp [same, Ne.symm same]

end HitEnter.Lib.Maps
