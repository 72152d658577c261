import HitEnter.Node.Accepting
import HitEnter.Node.TagIndex

/-! A withdrawal that comes after what it withdraws, and one that comes before. The first
reads its `e` tags into ids and drops what it finds; the second is looked up by an id's
own text. -/

namespace HitEnter.Node

open Wire HitEnter.Group

section Orders
variable [NostrEvents] {ev row : Event}

/-- Does `ev` keep `row` out? -/
private def keepsOut (ev row : Event) : Bool :=
  namesText ev row.id && (ev.kind == deletion && ev.pubkey == row.pubkey ||
    ev.kind == deleteEvent && groupOf ev == groupOf row && channelOf ev == channelOf row)

private theorem mem_targetsOf {id : EventId} (named : namesText ev id = true) : id ∈ targetsOf ev := by
  simp only [namesText, List.contains_iff_mem, tagRows, List.mem_filterMap] at named
  obtain ⟨cells, member, here⟩ := named
  refine List.mem_filterMap.mpr ⟨cells, member, ?_⟩
  rcases cells with _ | ⟨name, _ | ⟨value, rest⟩⟩
  · cases here
  · cases here
  · simp only at here
    split at here
    · obtain ⟨rfl, rfl⟩ := Prod.mk.inj (Option.some.inj here)
      exact NostrEvents.eventIdFromHex_toHex id
    · cases here

private theorem keepsOut_iff (said : deletableKinds.contains row.kind = true) :
    keepsOut ev row = true ↔ withdraws ev row = true ∧ namesText ev row.id = true := by
  simp only [keepsOut, withdraws, said, Bool.true_and, Bool.and_eq_true, Bool.or_eq_true, beq_iff_eq,
    List.contains_iff_mem]
  constructor
  · rintro ⟨named, right⟩
    refine ⟨⟨mem_targetsOf named, right.imp (And.imp_right Eq.symm) ?_⟩, named⟩
    exact fun removal => ⟨⟨removal.1.1, removal.1.2.symm⟩, removal.2.symm⟩
  · rintro ⟨⟨_, right⟩, named⟩
    refine ⟨named, right.imp (And.imp_right Eq.symm) ?_⟩
    exact fun removal => ⟨⟨removal.1.1, removal.1.2.symm⟩, removal.2.symm⟩

/-- What may be withdrawn is refused on account of one held event. -/
private theorem refused_iff {node : Inner} (said : deletableKinds.contains row.kind = true) :
    node.isDeleted row = true ∨ node.isRemoved row = true ↔ ∃ held ∈ node.store.events, keepsOut held row = true := by
  simp only [Inner.isDeleted, Inner.isRemoved, said, Bool.true_and, Store.isDeleted, removedByModerator, Store.naming,
    List.any_filter, List.any_eq_true, ← exists_or, ← and_or_left, keepsOut]
  refine exists_congr fun held => and_congr_right fun _ => ?_
  simp only [Bool.and_eq_true, Bool.or_eq_true]
  tauto

/-- What a withdrawal leaves once it is stored. -/
theorem mem_follow_withdrawal [Devices] [Wraps] {node : Inner} {now : Timestamp}
    (withdrawal : ev.kind = deletion ∨ ev.kind = deleteEvent) :
    row ∈ (node.follow ev .new now).store.events ↔ row ∈ node.store.events ∧ withdraws ev row = false := by
  have apart : (deletion == deleteEvent) = false := by decide
  rcases withdrawal with kind | kind
  · have dropped : (node.follow ev .new now).store = (node.store.applyDeletion ev deletableKinds).1 := by
      simp [Inner.follow, kind, Inner.applyDeletion]
    rw [dropped, Store.mem_applyDeletion, ← Bool.not_eq_true]
    refine and_congr_right fun _ => not_congr ?_
    simp only [withdraws, kind, apart, beq_self_eq_true, Bool.true_and, Bool.false_and, Bool.or_false, Bool.and_eq_true,
      beq_iff_eq, List.contains_iff_mem]
    tauto
  · have other : deleteEvent ≠ deletion := by decide
    have dropped : (node.follow ev .new now).store = node.store.remove (removalTargets node.store ev) := by
      simp [Inner.follow, kind, other, Inner.applyRemoval, Inner.remove]
    rw [dropped, Store.mem_remove, ← Bool.not_eq_true]
    refine and_congr_right fun held => not_congr ?_
    constructor
    · intro target
      obtain ⟨found, listed, same⟩ := List.mem_map.mp target
      simp only [List.mem_filter, Store.byIds, Bool.and_eq_true] at listed
      obtain ⟨⟨member, named⟩, ⟨deletable, group⟩, channel⟩ := listed
      obtain rfl := node.store.eq_of_id member held same
      simp only [withdraws, deletable, named, kind, group, channel, beq_self_eq_true, Bool.and_self, Bool.or_true]
    · exact mem_removalTargets held kind

end Orders

/-- Where nothing else held keeps it out, what a withdrawal drops is what a held
withdrawal refuses, if and only if an `e` tag that names it does so by its id's own text. -/
theorem withdrawn_both_orders [NostrEvents] [Devices] [Wraps] {ev row : Event}
    (withdrawal : ev.kind = deletion ∨ ev.kind = deleteEvent) (said : deletableKinds.contains row.kind = true)
    {before after : Inner} (held : row ∈ before.store.events) (now : Timestamp) (first : ev ∈ after.store.events)
    (alone : (after.remove [ev.id]).isDeleted row = false ∧ (after.remove [ev.id]).isRemoved row = false) :
    (row ∉ (before.follow ev .new now).store.events ↔ after.isDeleted row = true ∨ after.isRemoved row = true) ↔
      (withdraws ev row = true → namesText ev row.id = true) := by
  have others : ∀ other ∈ after.store.events, keepsOut other row = true → other = ev := by
    intro other member keeps
    by_contra differ
    have kept : other ∈ (after.remove [ev.id]).store.events := by
      rw [Inner.remove, Store.mem_remove, List.mem_singleton]
      exact ⟨member, fun same => differ (after.store.eq_of_id member first same)⟩
    rcases (refused_iff said).mpr ⟨other, kept, keeps⟩ with deleted | removed
    · rw [alone.1] at deleted
      cases deleted
    · rw [alone.2] at removed
      cases removed
  have refused : (after.isDeleted row = true ∨ after.isRemoved row = true) ↔ keepsOut ev row = true := by
    rw [refused_iff said]
    constructor
    · rintro ⟨other, member, keeps⟩
      exact others other member keeps ▸ keeps
    · exact fun keeps => ⟨ev, first, keeps⟩
  rw [mem_follow_withdrawal withdrawal, refused, keepsOut_iff said, ← Bool.not_eq_true]
  simp only [held, true_and, not_not]
  constructor
  · exact fun same withdrawn => (same.mp withdrawn).2
  · exact fun named => ⟨fun withdrawn => ⟨withdrawn, named withdrawn⟩, And.left⟩

theorem withdrawn_both_orders_takenBack :
    hello 500 ∉ ((foundersNode.insert (hello 500) 600).1.follow takenBack .new 600).store.events ↔
      (foundersNode.insert takenBack 600).1.isDeleted (hello 500) = true ∨
        (foundersNode.insert takenBack 600).1.isRemoved (hello 500) = true :=
  (withdrawn_both_orders (.inl (by decide +kernel)) (by decide +kernel) (by decide +kernel) 600 (by decide +kernel)
    (by decide +kernel)).mpr fun _ => by decide +kernel

/-- The guest takes back what they said, and spells its id in capitals. -/
def takenBackAloud : Event :=
  signed guest 510 deletion
    [Draft.h club, ["e", .ofList (List.replicate 43 '0') ++ "400000000000001F40009"], ["channel", "general"]] ""

/-- It drops the message where that is held, and does not keep it out where it comes after. -/
theorem takenBackAloud_returns : (foundersNode.groups.judge takenBackAloud 600).toOption = some .store ∧
    hello 500 ∉ ((foundersNode.insert (hello 500) 600).1.acceptEvent takenBackAloud .push 600).1.store.events ∧
    takenBackAloud ∈ (foundersNode.acceptEvent takenBackAloud .push 600).1.store.events ∧
    ((foundersNode.acceptEvent takenBackAloud .push 600).1.acceptEvent (hello 500) .push 600).2 = .stored .new := by
  decide +kernel

end HitEnter.Node
