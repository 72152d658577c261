import HitEnter.Wire.Message

/-! The event store: one table of events, one event for each id and at most one
in a replaceable slot, which the table's own keys enforce. -/

namespace HitEnter.Node

open Wire

/-- What an insert did. -/
inductive Stored where
  | new
  | duplicate
  | stale
  | ephemeral
deriving DecidableEq

section Slots
variable [Nostr]

/-- The replaceable slot within a kind and author; a regular event has none. -/
def slotD (ev : Event) : Option String :=
  match slot ev with
  | .replaceable => some ""
  | .addressable d => some d
  | .regular => none
  | .ephemeral => none

def sameSlot (ev other : Event) : Bool :=
  (slotD ev).isSome && ev.kind == other.kind && ev.pubkey == other.pubkey && slotD ev == slotD other

/-- The rows of the events table, oldest first. -/
structure Store where
  events : List Event := []
  ids : (events.map Event.id).Nodup := by exact List.nodup_nil
  slots : events.Pairwise fun a b => sameSlot a b = false := by simp

theorem sameSlot_comm (a b : Event) : sameSlot a b = sameSlot b a := by
  rw [Bool.eq_iff_iff]
  simp only [sameSlot, Bool.and_eq_true, beq_iff_eq]
  constructor
  · rintro ⟨⟨⟨some_, kind⟩, author⟩, same⟩
    exact ⟨⟨⟨same ▸ some_, kind.symm⟩, author.symm⟩, same.symm⟩
  · rintro ⟨⟨⟨some_, kind⟩, author⟩, same⟩
    exact ⟨⟨⟨same ▸ some_, kind.symm⟩, author.symm⟩, same.symm⟩

theorem sameSlot_trans {a b c : Event} (first : sameSlot a b = true) (second : sameSlot b c = true) :
    sameSlot a c = true := by
  simp only [sameSlot, Bool.and_eq_true, beq_iff_eq] at first second ⊢
  exact ⟨⟨⟨first.1.1.1, first.1.1.2.trans second.1.1.2⟩, first.1.2.trans second.1.2⟩, first.2.trans second.2⟩

namespace Store

/-- The rows that `keep` keeps. -/
def keep (s : Store) (keep : Event → Bool) : Store where
  events := s.events.filter keep
  ids := s.ids.sublist (List.filter_sublist.map _)
  slots := s.slots.filter _

/-- The event in the slot of `ev`, if it has one. -/
def current (s : Store) (ev : Event) : Option Event := s.events.find? (sameSlot ev)

/-- One more row, of an id and a slot that are free. -/
def push (s : Store) (ev : Event) (fresh : ∀ held ∈ s.events, held.id ≠ ev.id)
    (free : ∀ held ∈ s.events, sameSlot held ev = false) : Store where
  events := s.events ++ [ev]
  ids := by
    rw [List.map_append, List.nodup_append]
    refine ⟨s.ids, by simp, ?_⟩
    rintro _ listed _ added rfl
    obtain ⟨held, member, same⟩ := List.mem_map.mp listed
    exact fresh held member (by simpa [same] using added)
  slots := by
    rw [List.pairwise_append]
    exact ⟨s.slots, by simp, fun held member ev' added => List.mem_singleton.mp added ▸ free held member⟩

theorem eq_of_sameSlot (s : Store) {a b : Event} (first : a ∈ s.events) (second : b ∈ s.events)
    (same : sameSlot a b = true) : a = b := by
  by_contra differ
  have symmetric : Std.Symm fun a b => sameSlot a b = false :=
    ⟨fun x y apart => by rw [sameSlot_comm]; exact apart⟩
  have apart := s.slots.forall first second differ
  simp [apart] at same

theorem eq_of_id (s : Store) {a b : Event} (first : a ∈ s.events) (second : b ∈ s.events)
    (same : a.id = b.id) : a = b := List.inj_on_of_nodup_map s.ids first second same

theorem free_of_current {s : Store} {ev held : Event} (found : s.current ev = some held) :
    ∀ row ∈ (s.keep fun row => row.id ≠ held.id).events, sameSlot row ev = false := by
  intro row member
  obtain ⟨listed, other⟩ := List.mem_filter.mp member
  have inSlot : sameSlot ev held = true := List.find?_some found
  refine Bool.eq_false_iff.mpr fun same => ?_
  have both : sameSlot row held = true := sameSlot_trans same inSlot
  have rows := s.eq_of_sameSlot listed (List.mem_of_find?_eq_some found) both
  simp [rows] at other

theorem free_of_none {s : Store} {ev : Event} (vacant : s.current ev = none) :
    ∀ row ∈ s.events, sameSlot row ev = false := by
  intro row member
  rw [sameSlot_comm]
  exact Bool.eq_false_iff.mpr (List.find?_eq_none.mp vacant row member)

/-- Stores `ev` unless its slot holds one that it does not replace, or its id is
there already; an ephemeral event is never stored. -/
def insert (s : Store) (ev : Event) : Store × Stored :=
  if slot ev = .ephemeral then (s, .ephemeral)
  else match found : s.current ev with
    | some held =>
      if held.id = ev.id then (s, .duplicate)
      else if replaces ev held = false then (s, .stale)
      else if fresh : ∀ row ∈ s.events, row.id ≠ ev.id then
        ((s.keep fun row => row.id ≠ held.id).push ev (fun row member => fresh row (List.mem_filter.mp member).1)
          (free_of_current found), .new)
      else (s, .duplicate)
    | none =>
      if fresh : ∀ row ∈ s.events, row.id ≠ ev.id then (s.push ev fresh (free_of_none found), .new)
      else (s, .duplicate)

/-- Everything in `evs`, one after the other. -/
def insertAll (s : Store) (evs : List Event) : Store := evs.foldl (fun s ev => (s.insert ev).1) s

/-- What an insert leaves: as it was, or with `ev` in place of what its slot held. -/
theorem mem_insert (s : Store) (ev row : Event) : row ∈ (s.insert ev).1.events ↔
    if (s.insert ev).2 = .new then row = ev ∨ row ∈ s.events ∧ sameSlot ev row = false
    else row ∈ s.events := by
  unfold insert
  split
  · simp
  · split
    · rename_i held found
      have inSlot : sameSlot ev held = true := List.find?_some found
      have listed := List.mem_of_find?_eq_some found
      split
      · simp
      · split
        · simp
        · split
          · have freed : row ∈ s.events → (row.id ≠ held.id ↔ sameSlot ev row = false) := by
              intro member
              constructor
              · intro other
                refine Bool.eq_false_iff.mpr fun same => other ?_
                have both := sameSlot_trans (by rw [sameSlot_comm]; exact same) inSlot
                rw [s.eq_of_sameSlot member listed both]
              · intro apart same
                rw [s.eq_of_id member listed same, inSlot] at apart
                cases apart
            simp only [push, keep, List.mem_append, List.mem_filter, List.mem_singleton, decide_eq_true_eq,
              ↓reduceIte, or_comm (b := row = ev)]
            exact or_congr_right (and_congr_right freed)
          · simp
    · rename_i vacant
      have apart : row ∈ s.events → sameSlot ev row = false :=
        fun member => Bool.eq_false_iff.mpr (List.find?_eq_none.mp vacant row member)
      split
      · simp only [push, List.mem_append, List.mem_singleton, ↓reduceIte, or_comm (b := row = ev)]
        exact or_congr_right ⟨fun member => ⟨member, apart member⟩, And.left⟩
      · simp

/-- An insert leaves the rows of every other kind as they were. -/
theorem mem_insert_of_kind {s : Store} {ev row : Event} (other : row.kind ≠ ev.kind) :
    row ∈ (s.insert ev).1.events ↔ row ∈ s.events := by
  have apart : sameSlot ev row = false := by
    have differ : (ev.kind == row.kind) = false := beq_eq_false_iff_ne.mpr other.symm
    simp [sameSlot, differ]
  rw [mem_insert]
  split
  · simp only [apart, and_true, or_iff_right_iff_imp]
    rintro rfl
    exact absurd rfl other
  · rfl

/-- An event of a free id that replaces what its slot holds is stored. -/
theorem insert_new {s : Store} {ev : Event} (kept : slot ev ≠ .ephemeral)
    (fresh : ∀ row ∈ s.events, row.id ≠ ev.id)
    (newer : ∀ held ∈ s.events, sameSlot ev held = true → replaces ev held = true) :
    (s.insert ev).2 = .new := by
  unfold insert
  rw [if_neg kept]
  split
  · rename_i held found
    have listed := List.mem_of_find?_eq_some found
    have wins : ¬ replaces ev held = false := by simp [newer held listed (List.find?_some found)]
    rw [if_neg (fresh held listed), if_neg wins, dif_pos fresh]
  · rw [dif_pos fresh]

/-- What is stored has an id that no row had. -/
theorem fresh_of_new {s : Store} {ev : Event} (new : (s.insert ev).2 = .new) : ∀ row ∈ s.events, row.id ≠ ev.id := by
  unfold insert at new
  split at new
  · cases new
  · split at new
    · split at new
      · cases new
      · split at new
        · cases new
        · split at new
          · rename_i fresh
            exact fresh
          · cases new
    · split at new
      · rename_i fresh
        exact fresh
      · cases new

/-- An event of no slot is stored if its id is free. -/
theorem insert_regular {s : Store} {ev : Event} (regular : slot ev = .regular) :
    (s.insert ev).2 = .new ↔ ∀ row ∈ s.events, row.id ≠ ev.id := by
  refine ⟨fresh_of_new, fun fresh => insert_new (by rw [regular]; decide) fresh fun held _ same => ?_⟩
  simp [sameSlot, slotD, regular] at same

/-- An event that does not replace what its slot holds is not stored. -/
theorem insert_not_new {s : Store} {ev held : Event} (listed : held ∈ s.events) (same : sameSlot ev held = true)
    (weaker : replaces ev held = false) : (s.insert ev).2 ≠ .new := by
  unfold insert
  split
  · simp
  · split
    · rename_i current found
      have both := sameSlot_trans (by rw [sameSlot_comm]; exact same) (List.find?_some found)
      obtain rfl := s.eq_of_sameSlot listed (List.mem_of_find?_eq_some found) both
      split <;> simp
    · rename_i vacant
      exact absurd same (List.find?_eq_none.mp vacant held listed)

/-- Events apart from each other that replace what their slots hold all get in. -/
theorem mem_insertAll {s : Store} {evs : List Event} (kept : ∀ ev ∈ evs, slot ev ≠ .ephemeral)
    (apart : evs.Pairwise fun a b => a.id ≠ b.id ∧ sameSlot a b = false)
    (fresh : ∀ ev ∈ evs, ∀ row ∈ s.events, row.id ≠ ev.id)
    (newer : ∀ ev ∈ evs, ∀ held ∈ s.events, sameSlot ev held = true → replaces ev held = true)
    (row : Event) : row ∈ (s.insertAll evs).events ↔
      row ∈ evs ∨ row ∈ s.events ∧ ∀ ev ∈ evs, sameSlot ev row = false := by
  induction evs generalizing s with
  | nil => simp [insertAll]
  | cons ev rest ih =>
    obtain ⟨others, apart⟩ := List.pairwise_cons.mp apart
    have stored := insert_new (kept ev List.mem_cons_self) (fresh ev List.mem_cons_self)
      (newer ev List.mem_cons_self)
    have after : ∀ row, row ∈ (s.insert ev).1.events ↔ row = ev ∨ row ∈ s.events ∧ sameSlot ev row = false := by
      intro row
      rw [mem_insert, if_pos stored]
    have step := ih (s := (s.insert ev).1) (fun later here => kept later (List.mem_cons_of_mem ev here)) apart
      (by
        intro later here row held
        rcases (after row).mp held with rfl | ⟨old, _⟩
        · exact (others later here).1
        · exact fresh later (List.mem_cons_of_mem ev here) row old)
      (by
        intro later here row held same
        rcases (after row).mp held with rfl | ⟨old, _⟩
        · rw [sameSlot_comm, (others later here).2] at same
          cases same
        · exact newer later (List.mem_cons_of_mem ev here) row old same)
    change row ∈ ((s.insert ev).1.insertAll rest).events ↔ _
    rw [step, after]
    constructor
    · rintro (later | ⟨rfl | ⟨old, free⟩, spared⟩)
      · exact .inl (List.mem_cons_of_mem ev later)
      · exact .inl List.mem_cons_self
      · exact .inr ⟨old, List.forall_mem_cons.mpr ⟨free, spared⟩⟩
    · rintro (listed | ⟨old, spared⟩)
      · rcases List.mem_cons.mp listed with rfl | later
        · refine .inr ⟨.inl rfl, fun later here => ?_⟩
          rw [sameSlot_comm]
          exact (others later here).2
        · exact .inl later
      · obtain ⟨free, spared⟩ := List.forall_mem_cons.mp spared
        exact .inr ⟨.inr ⟨old, free⟩, spared⟩

end Store

omit [Nostr] in
theorem blank_ids : (([] : List Event).map Event.id).Nodup := List.nodup_nil

theorem blank_slots : ([] : List Event).Pairwise fun a b => sameSlot a b = false := .nil

/-- A store nothing is in yet. -/
def blankStore : Store := ⟨[], blank_ids, blank_slots⟩

end Slots

section Rivals
variable [Nostr]

/-- Events of one slot, each with an id of its own. -/
structure Rivals (events : Set Event) : Prop where
  together : ∀ a ∈ events, ∀ b ∈ events, sameSlot a b = true
  ids : Set.InjOn Event.id events

/-- Of the events of a slot one replaces another in exactly one direction, and none itself; a group's
state goes by its `seq` first, and of the bindings of one second a revocation wins. -/
theorem replaces_rivals {events : Set Event} (rivals : Rivals events) :
    (∀ a ∈ events, replaces a a = false) ∧
    (∀ a ∈ events, ∀ b ∈ events, ∀ c ∈ events, replaces a b = true → replaces b c = true → replaces a c = true) ∧
    (∀ a ∈ events, ∀ b ∈ events, a ≠ b → replaces a b = !replaces b a) ∧
    (∀ a ∈ events, ∀ b ∈ events, stateKinds.contains a.kind = true → seqBelow (seqOf b) (seqOf a) = true →
      replaces a b = true) ∧
    ∀ a ∈ events, ∀ b ∈ events, a.kind = deviceBinding → a.createdAt = b.createdAt → isRevoked a = true →
      isRevoked b = false → replaces a b = true := by
  have kinds : ∀ a ∈ events, ∀ b ∈ events, a.kind = b.kind := by
    intro a first b second
    have same := rivals.together a first b second
    simp only [sameSlot, Bool.and_eq_true, beq_iff_eq] at same
    exact same.1.1.2
  refine ⟨fun a _ => replaces_irrefl a, ?_, ?_, ?_, ?_⟩
  · intro a first b second c third
    exact replaces_trans (kinds a first b second) (kinds b second c third)
  · intro a first b second other
    cases back : replaces b a with
    | true =>
      refine Bool.eq_false_iff.mpr fun forth => ?_
      have both := replaces_trans (kinds a first b second) (kinds b second a first) forth back
      rw [replaces_irrefl] at both
      cases both
    | false =>
      have ids : a.id ≠ b.id := fun same => other (rivals.ids first second same)
      exact (replaces_total (kinds a first b second) ids).resolve_right (by rw [back]; exact Bool.false_ne_true)
  · intro a first b second state below
    have differ : seqOf a ≠ seqOf b := by
      intro same
      rw [same] at below
      cases seq : seqOf b <;> simp [seq, seqBelow] at below
    rw [replaces, if_pos ⟨state, kinds a first b second, differ⟩]
    exact below
  · intro a first b second binding date revoked alive
    have same := kinds a first b second
    have noState : stateKinds.contains a.kind = false := by
      rw [binding]
      decide
    have apart : isRevoked a ≠ isRevoked b := by
      rw [revoked, alive]
      exact Bool.false_ne_true.symm
    rw [replaces, noState, if_neg fun state => Bool.false_ne_true state.1, if_neg (not_not.mpr date),
      if_pos ⟨binding, same ▸ binding, apart⟩, revoked]

end Rivals

/-- A group's metadata, under a `seq` that may be no number. -/
def metadataOf (id : BitVec 256) (date : Timestamp) (seq : String) : Event :=
  ⟨⟨id⟩, club, date, groupMetadata, [["d", Nostr.toHex club], ["seq", seq]], ""⟩

def metadataRivals : List Event := [metadataOf 1 50 "2", metadataOf 2 100 "1", metadataOf 3 900 "two"]

theorem replaces_rivals_metadata : replaces (metadataOf 1 50 "2") (metadataOf 3 900 "two") = true := by
  have rivals : Rivals {ev | ev ∈ metadataRivals} :=
    ⟨(by decide +kernel : ∀ a ∈ metadataRivals, ∀ b ∈ metadataRivals, sameSlot a b = true),
      (by decide +kernel : ∀ a ∈ metadataRivals, ∀ b ∈ metadataRivals, a.id = b.id → a = b)⟩
  exact (replaces_rivals rivals).2.1 _ (by decide) (metadataOf 2 100 "1") (by decide) _ (by decide) (by decide +kernel)
    (by decide +kernel)

end HitEnter.Node
