import HitEnter.Node.Grants
import HitEnter.Node.Relay

/-! Page by page through what one may read. A filter's limit is spent on what its reader
may not see as well. -/

namespace HitEnter.Node

open Wire HitEnter.Group Lib.Ranks

/-- As many events as a `REQ` is answered with at most. -/
def effectiveLimit (filter : Filter) : Nat := filter.limit.elim maxEventsPerFilter fun l => min l maxEventsPerFilter

section Page
variable [NostrEvents] {store : Store} {filter : Filter}

/-- The held events that match, newest first, however many. -/
def Store.matching (s : Store) (filter : Filter) : List Event := s.query { filter with limit := none }

theorem query_capped : store.query (capped filter) = (store.matching filter).take (effectiveLimit filter) := by
  have small : rowLimit (effectiveLimit filter) = effectiveLimit filter := by
    have least : effectiveLimit filter ≤ maxEventsPerFilter := by
      unfold effectiveLimit
      cases filter.limit <;> simp
    exact min_eq_left (least.trans (by decide))
  unfold Store.matching Store.query
  cases searched : filter.search with
  | some text => simp [capped, searched]
  | none =>
    simp only [capped, searched, Option.isSome_none, Bool.false_eq_true, if_false, Option.elim_some, Option.elim_none]
    rw [← effectiveLimit, small]
    rfl

/-- A reader is answered with the newest of what they may read if and only if they may
read the whole page, or nothing past it. -/
theorem visible_capped_iff {gs : Groups} {reader : PublicKey} {now : Timestamp} :
    visible store gs reader (capped filter) now =
        ((store.matching filter).filter fun ev => gs.mayRead reader ev now).take (effectiveLimit filter) ↔
      (∀ ev ∈ (store.matching filter).take (effectiveLimit filter), gs.mayRead reader ev now = true) ∨
        ∀ ev ∈ (store.matching filter).drop (effectiveLimit filter), gs.mayRead reader ev now = false := by
  rw [visible, query_capped]
  exact filter_take_eq_iff

end Page

/-- The club's store, with a message and a newer letter to the founder. -/
def letterStore : Store := ((youngStore.insert (hello 500)).1.insert sealedLetter).1

/-- Asked for one event, a member is shown none, though there is one they may read. -/
theorem letterStore_page : visible letterStore foundersNode.groups guest (capped { limit := some 1 }) 600 = [] ∧
    ((letterStore.matching { limit := some 1 }).filter fun ev => foundersNode.groups.mayRead guest ev 600).take
      (effectiveLimit { limit := some 1 }) = [hello 500] := by
  decide +kernel

end HitEnter.Node
