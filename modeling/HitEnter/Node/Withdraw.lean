import HitEnter.Node.Query

/-! Withdrawals in the store: a person's deletions of their own messages, and a
moderator's removals in a channel. Before an event is stored they are looked up by its
id's own text; once stored, what they name is read and dropped. -/

namespace HitEnter.Node

open Wire

/-- What deletions and removals may remove. -/
def deletableKinds : List Kind := [chatMessage, reaction]

section Rows
variable [NostrEvents]

/-- Does an `e` tag of `ev` have the text of `id`? -/
def namesText (ev : Event) (id : EventId) : Bool := (tagRows ev).contains ("e", NostrEvents.eventIdToHex id)

namespace Store

/-- Has `author` withdrawn `id`? -/
def isDeleted (s : Store) (id : EventId) (author : PublicKey) : Bool :=
  s.events.any fun row => namesText row id && row.kind == deletion && row.pubkey == author

/-- Every event of `kind` that names `id`. -/
def naming (s : Store) (id : EventId) (kind : Kind) : List Event :=
  s.events.filter fun row => namesText row id && row.kind == kind

/-- Removes these events, whatever they are. -/
def remove (s : Store) (ids : List EventId) : Store := s.keep fun row => !ids.contains row.id

/-- One target of a deletion, with the ids removed so far. -/
def deleteTarget (ev : Event) (kinds : List Kind) (acc : Store × List EventId) (id : EventId) :
    Store × List EventId :=
  match acc.1.events.find? (·.id = id) with
  | some row =>
    if row.pubkey = ev.pubkey ∧ kinds.contains row.kind = true then (acc.1.remove [id], acc.2 ++ [id]) else acc
  | none => acc

/-- Removes each target of a stored deletion that is its author's own and of one of
`kinds`. -/
def applyDeletion (s : Store) (ev : Event) (kinds : List Kind) : Store × List EventId :=
  (targetsOf ev).foldl (deleteTarget ev kinds) (s, [])

def byIds (s : Store) (ids : List EventId) : List Event := s.events.filter fun row => ids.contains row.id

@[simp] theorem mem_remove {s : Store} {ids : List EventId} {row : Event} :
    row ∈ (s.remove ids).events ↔ row ∈ s.events ∧ row.id ∉ ids := by
  simp [remove, keep]

/-- A deletion takes its author's own of the kinds it names, and nothing else. -/
theorem mem_applyDeletion {s : Store} {ev row : Event} {kinds : List Kind} :
    row ∈ (s.applyDeletion ev kinds).1.events ↔
      row ∈ s.events ∧ ¬ (row.id ∈ targetsOf ev ∧ row.pubkey = ev.pubkey ∧ kinds.contains row.kind = true) := by
  unfold applyDeletion
  generalize ([] : List EventId) = gone
  induction targetsOf ev generalizing s gone with
  | nil => simp
  | cons id rest ih =>
    rw [List.foldl_cons, deleteTarget]
    split
    · rename_i found held
      have listed := List.mem_of_find?_eq_some held
      have same : found.id = id := of_decide_eq_true (List.find?_some (p := fun r : Event => decide (r.id = id)) held)
      split
      · rename_i own
        rw [ih, mem_remove, List.mem_singleton, List.mem_cons]
        constructor
        · rintro ⟨⟨member, other⟩, spared⟩
          exact ⟨member, fun ⟨named, fits⟩ => spared ⟨named.resolve_left other, fits⟩⟩
        · rintro ⟨member, spared⟩
          refine ⟨⟨member, fun here => spared ⟨.inl here, ?_⟩⟩, fun ⟨named, fits⟩ => spared ⟨.inr named, fits⟩⟩
          rw [s.eq_of_id member listed (here.trans same.symm)]
          exact own
      · rename_i others
        rw [ih, List.mem_cons]
        refine and_congr_right fun member => not_congr (and_congr_left fun fits => ?_)
        refine ⟨.inr, fun named => named.resolve_left fun here => others ?_⟩
        rw [← s.eq_of_id member listed (here.trans same.symm)]
        exact fits
    · rename_i absent
      rw [ih, List.mem_cons]
      refine and_congr_right fun member => not_congr (and_congr_left fun _ => ?_)
      refine ⟨.inr, fun named => named.resolve_left fun here => ?_⟩
      exact List.find?_eq_none.mp absent row member (decide_eq_true here)

end Store

/-- Has a moderator's removal, in the same group and channel, removed `ev`? -/
def removedByModerator (s : Store) (ev : Event) : Bool :=
  (s.naming ev.id deleteEvent).any fun row => groupOf row == groupOf ev && channelOf row == channelOf ev

/-- The held messages and reactions a removal names in its group and channel. -/
def removalTargets (s : Store) (removal : Event) : List EventId :=
  ((s.byIds (targetsOf removal)).filter fun row =>
    deletableKinds.contains row.kind && groupOf row == groupOf removal && channelOf row == channelOf removal).map
      Event.id

/-- Does `ev` withdraw `row`: as its author, or as a moderator of its channel? -/
def withdraws (ev row : Event) : Bool :=
  deletableKinds.contains row.kind && (targetsOf ev).contains row.id &&
    (ev.kind == deletion && row.pubkey == ev.pubkey ||
      ev.kind == deleteEvent && groupOf row == groupOf ev && channelOf row == channelOf ev)

theorem mem_removalTargets {s : Store} {removal row : Event} (held : row ∈ s.events)
    (kind : removal.kind = deleteEvent) (withdrawn : withdraws removal row = true) :
    row.id ∈ removalTargets s removal := by
  have other : (deleteEvent == deletion) = false := by decide
  simp only [withdraws, kind, other, Bool.false_and, Bool.false_or, beq_self_eq_true, Bool.true_and,
    Bool.and_eq_true] at withdrawn
  obtain ⟨⟨deletable, named⟩, group, channel⟩ := withdrawn
  refine List.mem_map_of_mem (List.mem_filter.mpr ⟨List.mem_filter.mpr ⟨held, named⟩, ?_⟩)
  simp only [deletable, group, channel, Bool.and_self]

end Rows

end HitEnter.Node
