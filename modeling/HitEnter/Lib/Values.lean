import Mathlib

/-! The values of an ordered map, each as often as it is held. -/

namespace HitEnter.Lib.Values

variable {K V : Type} [Ord K] [Std.TransOrd K] [Std.LawfulEqOrd K] {entries : Std.ExtTreeMap K V compare} {k : K} {v : V}

def values (entries : Std.ExtTreeMap K V compare) : Multiset V := (entries.toList.map Prod.snd : List V)

theorem nodup_toList : entries.toList.Nodup := by
  refine (Std.ExtTreeMap.distinct_keys_toList (t := entries)).imp fun {a b} apart same => apart ?_
  rw [same]
  exact Std.LawfulEqCmp.compare_eq_iff_eq.mpr rfl

/-- Entries that are all among others, of maps that need not agree in anything else. -/
theorem values_le {more : List (K × V)} (among : ∀ k v, entries[k]? = some v → (k, v) ∈ more) :
    values entries ≤ (more.map Prod.snd : List V) := by
  refine Multiset.map_le_map (f := Prod.snd) (s := (entries.toList : Multiset (K × V))) (t := (more : Multiset (K × V))) ?_
  refine Multiset.coe_le.mpr (List.subperm_of_subset nodup_toList ?_)
  rintro ⟨k, v⟩ member
  exact among k v (Std.ExtTreeMap.mem_toList_iff_getElem?_eq_some.mp member)

omit [Std.LawfulEqOrd K] in
@[simp] theorem values_empty : values (∅ : Std.ExtTreeMap K V compare) = 0 := rfl

theorem values_filter_le (keeps : K → V → Bool) : values (entries.filter keeps) ≤ values entries := by
  refine values_le fun k v held => Std.ExtTreeMap.mem_toList_iff_getElem?_eq_some.mpr ?_
  rw [Std.ExtTreeMap.getElem?_filter'] at held
  exact (Option.filter_eq_some_iff.mp held).1

theorem values_erase_le (k : K) : values (entries.erase k) ≤ values entries := by
  refine values_le fun j v held => Std.ExtTreeMap.mem_toList_iff_getElem?_eq_some.mpr ?_
  rw [Std.ExtTreeMap.getElem?_erase] at held
  split at held
  · contradiction
  · exact held

theorem values_insert_le (k : K) (v : V) : values (entries.insert k v) ≤ v ::ₘ values entries := by
  have among : ∀ j w, (entries.insert k v)[j]? = some w → (j, w) ∈ (k, v) :: entries.toList := by
    intro j w held
    rw [Std.ExtTreeMap.getElem?_insert] at held
    split at held
    · rename_i same
      rw [Std.LawfulEqCmp.compare_eq_iff_eq.mp same, Option.some.inj held]
      exact List.mem_cons_self
    · exact List.mem_cons_of_mem _ (Std.ExtTreeMap.mem_toList_iff_getElem?_eq_some.mpr held)
  exact values_le among

/-- What is taken out was held once more. -/
theorem cons_values_erase_le (held : entries[k]? = some v) : v ::ₘ values (entries.erase k) ≤ values entries := by
  have apart : (k, v) ∉ (entries.erase k).toList := by
    rw [Std.ExtTreeMap.mem_toList_iff_getElem?_eq_some]
    simp
  have within : ((k, v) :: (entries.erase k).toList).Subperm entries.toList := by
    refine List.subperm_of_subset (List.nodup_cons.mpr ⟨apart, nodup_toList⟩) ?_
    rintro ⟨j, w⟩ member
    rw [Std.ExtTreeMap.mem_toList_iff_getElem?_eq_some]
    obtain same | later := List.mem_cons.mp member
    · obtain ⟨rfl, rfl⟩ := Prod.mk.inj same
      exact held
    · rw [Std.ExtTreeMap.mem_toList_iff_getElem?_eq_some, Std.ExtTreeMap.getElem?_erase] at later
      split at later
      · contradiction
      · exact later
  exact Multiset.map_le_map (f := Prod.snd) (Multiset.coe_le.mpr within)

end HitEnter.Lib.Values
