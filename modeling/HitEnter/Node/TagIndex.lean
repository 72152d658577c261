import HitEnter.Group.Readers
import HitEnter.Node.Accept
import HitEnter.Node.InFlight
import HitEnter.Wire.Revocation

/-! The group an event is in, told twice: `groupOf` reads the first `h` tag into a key,
while the queries for a group's events look for the key's own text in any of them. -/

namespace HitEnter.Node

open Wire HitEnter.Group Lib.Checks

/-- The values of an event's `h` tags. -/
def groupTexts (ev : Event) : List String :=
  ev.tags.filterMap fun
    | "h" :: value :: _ => some value
    | _ => none

theorem mem_tagRows_h {ev : Event} {text : String} : ("h", text) ∈ tagRows ev ↔ text ∈ groupTexts ev := by
  simp only [tagRows, groupTexts, List.mem_filterMap]
  refine exists_congr fun cells => and_congr_right fun _ => ?_
  rcases cells with _ | ⟨name, _ | ⟨value, rest⟩⟩
  · simp
  · simp
  · by_cases h : name = "h"
    · subst h
      have short : (Lib.Hex.bytes "h").length = 1 := by decide +kernel
      simp [short]
    · simp [h]

section Index
variable [Nostr]

theorem selects_inGroup {filter : Filter} {ev : Event} {g : PublicKey} :
    (filter.inGroup g).selects ev = true ↔ filter.selects ev = true ∧ Nostr.toHex g ∈ groupTexts ev := by
  have named : lowercaseH.text = "h" := by decide +kernel
  have rows : ((tagRows ev).any fun row => row.1 == lowercaseH.text && [Nostr.toHex g].contains row.2) = true ↔
      Nostr.toHex g ∈ groupTexts ev := by
    rw [← mem_tagRows_h, List.any_eq_true, named]
    constructor
    · rintro ⟨⟨name, text⟩, member, same⟩
      simp only [Bool.and_eq_true, beq_iff_eq, List.contains_iff_mem, List.mem_singleton] at same
      rw [← same.1, ← same.2]
      exact member
    · exact fun member => ⟨_, member, by simp⟩
  simp only [Filter.inGroup, Filter.selects, List.all_append, List.all_cons, List.all_nil, Bool.and_true,
    Bool.and_eq_true, rows, and_assoc]

/-- What a search without limit finds in a group. -/
theorem mem_query_inGroup {s : Store} {filter : Filter} {ev : Event} {g : PublicKey} (plain : filter.search = none)
    (whole : filter.limit = none) :
    ev ∈ s.query (filter.inGroup g) ↔
      ev ∈ s.events ∧ filter.selects ev = true ∧ Nostr.toHex g ∈ groupTexts ev := by
  have reached : s.reaches (filter.inGroup g) ev = true := by simp [Store.reaches, Filter.inGroup, whole]
  have searched : (filter.inGroup g).search = none := plain
  rw [Store.mem_query, selects_inGroup, searched]
  simp only [reached, and_true, true_and]

end Index

/-- Wherever an accepted event of a group is held, the queries for a group's events find
it in its own group and in no other, if and only if among its `h` tags is its group's own
text, and none is the own text of another key. -/
theorem groupOf_indexed [NostrEvents] [Devices] [Wraps] {node : Inner} {ev : Event} {source : Source}
    {now : Timestamp} (group : isGroupKind ev.kind = true)
    (accepted : (node.acceptEvent ev source now).2.accepted = true) {s : Store} (held : ev ∈ s.events) :
    ∃ own, groupOf ev = some own ∧
      ((∀ filter : Filter, filter.search = none → filter.limit = none → filter.selects ev = true →
          ∀ g, groupOf ev = some g ↔ ev ∈ s.query (filter.inGroup g)) ↔
        Nostr.toHex own ∈ groupTexts ev ∧ ∀ g, Nostr.toHex g ∈ groupTexts ev → g = own) := by
  obtain ⟨judgement, judged⟩ := Inner.judged_of_accepted accepted
  rw [Inner.judged_of_not_wrap (groupKind_not_personal group).1] at judged
  obtain ⟨own, _, named, _⟩ := judge_carried judged group
  refine ⟨own, named, ?_⟩
  constructor
  · intro agree
    have found := fun g => (agree {} rfl rfl rfl g).trans (mem_query_inGroup rfl rfl)
    refine ⟨((found own).mp named).2.2, fun g text => ?_⟩
    have read := (found g).mpr ⟨held, rfl, text⟩
    exact (Option.some.inj (named.symm.trans read)).symm
  · rintro ⟨spelled, only⟩ filter plain whole fits g
    rw [mem_query_inGroup plain whole, named, Option.some.injEq]
    constructor
    · rintro rfl
      exact ⟨held, fits, spelled⟩
    · rintro ⟨_, _, text⟩
      exact (only g text).symm

/-- A node on the store of the club someone has joined since. -/
def foundersNode : Inner := .start youngStore [club] founder 600

theorem groupOf_indexed_hello : hello 500 ∈
    (foundersNode.insert (hello 500) 600).1.store.query (Filter.inGroup { kinds := some [chatMessage] } club) := by
  have accepted : (foundersNode.acceptEvent (hello 500) .push 600).2.accepted = true := by decide +kernel
  have held : hello 500 ∈ (foundersNode.insert (hello 500) 600).1.store.events := by decide +kernel
  have texts : groupTexts (hello 500) = [Nostr.toHex club] := by decide +kernel
  obtain ⟨own, named, agree⟩ := groupOf_indexed (by decide +kernel) accepted held
  have club' : groupOf (hello 500) = some club := by decide +kernel
  obtain rfl := Option.some.inj (named.symm.trans club')
  refine (agree.mpr ⟨by simp [texts], fun g spelled => ?_⟩ { kinds := some [chatMessage] } rfl rfl (by decide +kernel)
    club).mp club'
  rw [texts, List.mem_singleton] at spelled
  simpa using congrArg Nostr.fromHex spelled

/-- A private group, whose key has a letter in its text. -/
def den : PublicKey := ⟨10⟩

def denStore : Store where
  events := genesis founder den "den" false 100
  ids := by decide +kernel
  slots := by decide +kernel

def foundersDen : Inner := .start denStore [den] founder 600

/-- The den's key in capitals. -/
def denAloud : String := .ofList (List.replicate 63 '0' ++ ['A'])

/-- The founder renames the den, which is spelled in capitals. -/
def renamedAloud : Event := signed founder 200 editMetadata [["h", denAloud], ["name", "lair"]] ""

/-- An action is accepted and held, and no query for its group's events finds it. -/
theorem renamedAloud_unindexed : isGroupKind renamedAloud.kind = true ∧ stateKinds.contains renamedAloud.kind = false ∧
    (foundersDen.acceptEvent renamedAloud .push 600).2 = .stored .new ∧
    renamedAloud ∈ (foundersDen.acceptEvent renamedAloud .push 600).1.store.events ∧
    groupOf renamedAloud = some den ∧
    renamedAloud ∉ (foundersDen.acceptEvent renamedAloud .push 600).1.store.groupEvents den ∧
    renamedAloud ∉ (foundersDen.acceptEvent renamedAloud .push 600).1.store.query (Filter.inGroup {} den) := by
  decide +kernel

end HitEnter.Node
