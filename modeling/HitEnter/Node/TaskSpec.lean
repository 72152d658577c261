import HitEnter.Group.JudgeSpec
import HitEnter.Node.Effects
import HitEnter.Node.Host

/-! What one step of a call or a look can do: it sets a group's state, stores an event,
drops rows or writes a person's anchors, and nothing of the others besides. -/

namespace HitEnter.Node

open Wire HitEnter.Group Lib.Turns

/-- The state a task is about to write. -/
def Task.sets : Task → Option (PublicKey × Option GroupState)
  | .call c =>
    match c.phase with
    | .settling group state => some (group, state)
    | _ => none
  | .look (.settling group state _) => some (group, state)
  | .look _ => none

/-- The group whose silences a task is about to look through. -/
def Task.purges : Task → Option PublicKey
  | .call c =>
    match c.phase with
    | .purging group => some group
    | _ => none
  | .look (.purging group _) => some group
  | .look _ => none

/-- What a task is about to drop. -/
def Task.drops : Task → List EventId
  | .call c =>
    match c.phase with
    | .removing gone => gone
    | _ => []
  | .look (.removing gone _) => gone
  | .look _ => []

/-- The inbox list whose anchors a task is about to write. -/
def Task.lists : Task → Option Event
  | .call c =>
    match c.phase with
    | .listing => some c.event
    | _ => none
  | .look _ => none

/-- The event a task is about to store. -/
def Task.stores : Task → Option Event
  | .call c =>
    match c.phase with
    | .storing => some c.event
    | _ => none
  | .look _ => none

/-- The event of a call that has ended with the store. -/
def Task.accepts : Task → Option Event
  | .call c =>
    match c.phase with
    | .ended (.stored _) => some c.event
    | _ => none
  | .look _ => none

/-- Judged, and not yet stored. -/
def Phase.isPending : Phase → Bool
  | .folding _ | .booking | .checking | .undeleted | .spacing | .storing => true
  | _ => false

/-- Before the store. -/
def Phase.isEarly : Phase → Bool
  | .waiting | .judging | .folding _ | .booking | .checking | .undeleted | .spacing => true
  | _ => false

/-- Where a call is that has nothing to do but to store its event. -/
def Phase.isPlain : Phase → Bool
  | .storing | .ended _ => true
  | phase => phase.isEarly

theorem Phase.isBusy_of_pending {phase : Phase} (pending : phase.isPending = true) : phase.isBusy = true := by
  cases phase
  all_goals first | rfl | cases pending

private theorem Phase.plain_of_early {phase : Phase} (early : phase.isEarly = true) : phase.isPlain = true := by
  cases phase
  all_goals first | rfl | cases early

section Lock
variable [Nostr] {c : Call} {t : Task} {g : PublicKey}

/-- From the store on a call works on the group its event changes, or on an inbox list. -/
def Call.Sound (c : Call) : Prop :=
  match c.phase with
  | .refolding g | .settling g _ | .purging g => groupOf c.event = some g ∧ changesState c.event.kind = true
  | .listing => c.event.kind = inboxList
  | _ => True

/-- A call that has not come past the store, or has ended, works on nothing. -/
private theorem Call.sound_of_plain (plain : c.phase.isPlain = true) : c.Sound := by
  unfold Call.Sound
  split
  case h_5 => trivial
  all_goals
    rename_i here
    rw [here] at plain
    cases plain

theorem Call.needs_of_changes (own : groupOf c.event = some g) (changes : changesState c.event.kind = true) :
    c.needs = some .write := by
  simp [Call.needs, own, changes]

theorem Call.needs_of_said (own : groupOf c.event = some g) : c.needs ≠ none := by
  simp only [Call.needs, own, Option.isNone_some, Bool.false_eq_true, ↓reduceIte]
  split <;> simp

/-- A task whose step concerns a group holds the lock for writing. -/
theorem Task.holds_of_sets {state : Option GroupState} (sound : ∀ c, t = .call c → c.Sound)
    (sets : t.sets = some (g, state)) : t.holds = some .write := by
  rcases t with ⟨ev, source, now, phase⟩ | l
  · cases phase
    case settling g' state' =>
      obtain ⟨own, changes⟩ := sound _ rfl
      simp only [Task.holds, Phase.isBusy, ↓reduceIte]
      exact Call.needs_of_changes own changes
    all_goals cases sets
  · cases l
    case settling => rfl
    all_goals cases sets

end Lock

/-- Where an event goes from the store. -/
theorem Phase.stored_cases [NostrEvents] (ev : Event) (how : Stored) : Phase.stored ev how = .ended (.stored how) ∨
    how = .new ∧ (ev.kind = deletion ∧ Phase.stored ev how = .deleting ∨
      ev.kind = deleteEvent ∧ Phase.stored ev how = .naming ∨ ev.kind = giftWrap ∧ Phase.stored ev how = .opening ∨
      ev.kind = inboxList ∧ Phase.stored ev how = .listing ∨
      ∃ g, groupOf ev = some g ∧ changesState ev.kind = true ∧ Phase.stored ev how = .refolding g) := by
  by_cases new : how = .new
  · subst new
    rw [Phase.stored, if_neg (not_not.mpr rfl)]
    by_cases deletes : ev.kind = deletion
    · exact .inr ⟨rfl, .inl ⟨deletes, if_pos deletes⟩⟩
    rw [if_neg deletes]
    by_cases removes : ev.kind = deleteEvent
    · exact .inr ⟨rfl, .inr (.inl ⟨removes, if_pos removes⟩)⟩
    rw [if_neg removes]
    by_cases wraps : ev.kind = giftWrap
    · exact .inr ⟨rfl, .inr (.inr (.inl ⟨wraps, if_pos wraps⟩))⟩
    rw [if_neg wraps]
    by_cases lists : ev.kind = inboxList
    · exact .inr ⟨rfl, .inr (.inr (.inr (.inl ⟨lists, if_pos lists⟩)))⟩
    rw [if_neg lists]
    cases own : groupOf ev with
    | none => exact .inl rfl
    | some g =>
      cases changes : changesState ev.kind with
      | false => exact .inl rfl
      | true => exact .inr ⟨rfl, .inr (.inr (.inr (.inr ⟨g, rfl, rfl, rfl⟩)))⟩
  · exact .inl (if_pos new)

section Steps
variable [NostrEvents] [Devices] [Wraps] {c : Call} {t : Task} {node : Inner} {g : PublicKey}

variable (node) in
/-- Before the store a call is refused, or comes nearer to it. -/
theorem Call.next_early (early : c.phase.isEarly = true) :
    (∃ verdict, (c.next node).2 = .ended verdict ∧ verdict.accepted = false) ∨ (c.next node).2.isEarly = true ∨
      c.phase = .spacing ∧ (c.next node).2 = .storing ∧ node.spaced c.event = none := by
  rcases c with ⟨ev, source, now, phase⟩
  cases phase
  case waiting => exact .inr (.inl rfl)
  case judging =>
    simp only [Call.next]
    cases node.judged ev source now with
    | error refusal => exact .inl ⟨_, rfl, rfl⟩
    | ok judgement => cases judgement <;> exact .inr (.inl rfl)
  case folding group =>
    simp only [Call.next]
    cases node.applies ev (.foldWith group) with
    | true => exact .inr (.inl rfl)
    | false => exact .inl ⟨_, rfl, rfl⟩
  case booking =>
    simp only [Call.next]
    cases node.bookBinding ev now with
    | error refusal => exact .inl ⟨_, rfl, rfl⟩
    | ok later => exact .inr (.inl rfl)
  case checking =>
    simp only [Call.next]
    cases node.isDeleted ev with
    | true => exact .inl ⟨_, rfl, rfl⟩
    | false => exact .inr (.inl rfl)
  case undeleted =>
    simp only [Call.next]
    cases node.isRemoved ev with
    | true => exact .inl ⟨_, rfl, rfl⟩
    | false => exact .inr (.inl rfl)
  case spacing =>
    simp only [Call.next]
    cases node.spaced ev with
    | some wait => exact .inl ⟨_, rfl, rfl⟩
    | none => exact .inr (.inr ⟨trivial, rfl, rfl⟩)
  all_goals cases early

/-- After a step before the store a call has only the store before it. -/
private theorem Call.plain_next (early : c.phase.isEarly = true) : (c.next node).2.isPlain = true := by
  rcases Call.next_early node early with ⟨verdict, ended, _⟩ | early' | ⟨_, storing, _⟩
  · rw [ended]
    rfl
  · exact Phase.plain_of_early early'
  · rw [storing]
    rfl

theorem Call.sound_next (sound : c.Sound) : { c with phase := (c.next node).2 : Call }.Sound := by
  by_cases early : c.phase.isEarly = true
  · exact Call.sound_of_plain (Call.plain_next early)
  · rcases c with ⟨ev, source, now, phase⟩
    cases phase
    case storing =>
      rcases Phase.stored_cases ev (node.insert ev now).2 with phase | ⟨_, ⟨_, phase⟩ | ⟨_, phase⟩ | ⟨_, phase⟩ |
        ⟨lists, phase⟩ | ⟨g, own, changes, phase⟩⟩
      all_goals simp only [Call.next, Call.Sound, phase]
      · exact lists
      · exact ⟨own, changes⟩
    case refolding g => exact sound
    case settling g state => exact sound
    all_goals trivial

theorem Task.next_of_sets {state : Option GroupState} (sets : t.sets = some (g, state)) :
    (t.next node).1 = node.setState g state ∧ (t.next node).2.purges = some g := by
  rcases t with ⟨ev, source, now, phase⟩ | l
  · cases phase
    case settling g' state' =>
      cases sets
      exact ⟨rfl, rfl⟩
    all_goals cases sets
  · cases l
    case settling g' state' left =>
      cases sets
      exact ⟨rfl, rfl⟩
    all_goals cases sets

theorem Task.next_of_purges (purges : t.purges = some g) :
    (t.next node).1 = node ∧ (t.next node).2.drops = node.silenced g := by
  rcases t with ⟨ev, source, now, phase⟩ | l
  · cases phase
    case purging g' =>
      cases purges
      exact ⟨rfl, rfl⟩
    all_goals cases purges
  · cases l
    case purging g' left =>
      cases purges
      exact ⟨rfl, rfl⟩
    all_goals cases purges

/-- What a task was to drop is gone. -/
theorem Task.next_of_drops {id : EventId} (drops : id ∈ t.drops) : ∀ row ∈ (t.next node).1.store.events, row.id ≠ id := by
  rcases t with ⟨ev, source, now, phase⟩ | l
  · cases phase
    case removing gone =>
      intro row member same
      exact (Store.mem_remove.mp member).2 (same ▸ drops)
    all_goals cases drops
  · cases l
    case removing gone left =>
      intro row member same
      exact (Store.mem_remove.mp member).2 (same ▸ drops)
    all_goals cases drops

theorem Task.next_of_lists {list : Event} (lists : t.lists = some list) :
    (t.next node).1 = node.setInboxes list ∧ t.stores = none := by
  rcases t with ⟨ev, source, now, phase⟩ | l
  · cases phase
    case listing =>
      cases lists
      exact ⟨rfl, rfl⟩
    all_goals cases lists
  · cases lists

private theorem Task.groups_next (still : t.sets = none) (blank : t.lists = none) :
    (t.next node).1.groups = node.groups := by
  rcases t with ⟨ev, source, now, phase⟩ | l
  · cases phase
    case settling g' state => cases still
    case listing => cases blank
    case judging =>
      simp only [Task.next, Call.next]
      cases node.judged ev source now with
      | error refusal => rfl
      | ok judgement => cases judgement <;> rfl
    case booking =>
      simp only [Task.next, Call.next]
      cases booked : node.bookBinding ev now with
      | error refusal => rfl
      | ok later => exact (Inner.bookBinding_ok booked).1
    case opening => exact Inner.SameGroups.openWrap.groups
    case capping => exact Inner.SameGroups.keepInbox.1.groups
    all_goals rfl
  · cases l
    case waiting left => cases left <;> rfl
    case comparing g' events left =>
      simp only [Task.next, Look.next]
      split <;> rfl
    case settling => cases still
    all_goals rfl

/-- Only a task that sets a state changes what is held of the groups carried. -/
theorem Task.carried_next (still : t.sets = none) : (t.next node).1.groups.carried = node.groups.carried := by
  cases lists : t.lists with
  | none => rw [Task.groups_next still lists]
  | some list =>
    rw [(Task.next_of_lists lists).1]
    rfl

/-- Only a call that writes a list's anchors changes whose anchors are recorded. -/
theorem Task.inboxes_next (still : t.lists = none) : (t.next node).1.groups.inboxes = node.groups.inboxes := by
  cases sets : t.sets with
  | none => rw [Task.groups_next sets still]
  | some pair =>
    rw [(Task.next_of_sets sets).1]
    rfl

/-- A new inbox list that is stored has its anchors written next. -/
theorem Task.lists_next {list : Event} (stores : t.stores = some list) (kind : list.kind = inboxList)
    (new : (node.store.insert list).2 = .new) : (t.next node).2.lists = some list := by
  rcases t with ⟨ev, source, now, phase⟩ | l
  · cases phase
    case storing =>
      cases stores
      have kinds : inboxList ≠ deletion ∧ inboxList ≠ deleteEvent ∧ inboxList ≠ giftWrap := by decide
      have stored : Phase.stored ev (node.insert ev now).2 = .listing := by
        rw [Inner.insert, Phase.stored, if_neg (not_not.mpr new), kind, if_neg kinds.1, if_neg kinds.2.1,
          if_neg kinds.2.2, if_pos rfl]
      simp only [Task.next, Call.next, Task.lists, stored]
    all_goals cases stores
  · cases stores

variable (t node) in
/-- What a step makes of the rows, but for wraps and bindings: it stores an event, it
drops rows, or it withdraws what may be withdrawn. -/
theorem Task.rows_next {row : Event} (aside : row.kind ≠ deviceBinding ∧ row.kind ≠ giftWrap) :
    (∃ ev, t.stores = some ev ∧
      (row ∈ (t.next node).1.store.events ↔ row ∈ (node.store.insert ev).1.events)) ∨
    t.stores = none ∧ (row ∈ (t.next node).1.store.events → row ∈ node.store.events) ∧
      (deletableKinds.contains row.kind = false → row ∈ node.store.events → row.id ∉ t.drops →
        row ∈ (t.next node).1.store.events) := by
  have same : t.stores = none → (row ∈ (t.next node).1.store.events ↔ row ∈ node.store.events) →
      t.stores = none ∧ (row ∈ (t.next node).1.store.events → row ∈ node.store.events) ∧
        (deletableKinds.contains row.kind = false → row ∈ node.store.events → row.id ∉ t.drops →
          row ∈ (t.next node).1.store.events) :=
    fun idle rows => ⟨idle, rows.mp, fun _ held _ => rows.mpr held⟩
  rcases t with ⟨ev, source, now, phase⟩ | l
  · cases phase
    case storing => exact .inl ⟨ev, rfl, Iff.rfl⟩
    case removing gone =>
      refine .inr ⟨rfl, fun later => (Store.mem_remove.mp later).1, fun _ held spared => ?_⟩
      exact Store.mem_remove.mpr ⟨held, spared⟩
    case deleting =>
      refine .inr ⟨rfl, fun later => (Store.mem_applyDeletion.mp later).1, fun firm held _ => ?_⟩
      refine Store.mem_applyDeletion.mpr ⟨held, fun withdrawn => ?_⟩
      rw [firm] at withdrawn
      cases withdrawn.2.2
    case judging =>
      refine .inr (same rfl ?_)
      simp only [Task.next, Call.next]
      cases node.judged ev source now with
      | error refusal => rfl
      | ok judgement => cases judgement <;> rfl
    case booking =>
      refine .inr (same rfl ?_)
      simp only [Task.next, Call.next]
      cases booked : node.bookBinding ev now with
      | error refusal => rfl
      | ok later => rw [(Inner.bookBinding_ok booked).2.1]
    case opening => exact .inr (same rfl (Inner.SameGroups.openWrap.rows row aside.1 aside.2))
    case capping => exact .inr (same rfl (Inner.SameGroups.keepInbox.1.rows row aside.1 aside.2))
    all_goals exact .inr (same rfl Iff.rfl)
  · cases l
    case waiting left =>
      refine .inr (same rfl ?_)
      cases left <;> rfl
    case comparing g' events left =>
      refine .inr (same rfl ?_)
      simp only [Task.next, Look.next]
      split <;> rfl
    case removing gone left =>
      refine .inr ⟨rfl, fun later => (Store.mem_remove.mp later).1, fun _ held spared => ?_⟩
      exact Store.mem_remove.mpr ⟨held, spared⟩
    all_goals exact .inr (same rfl Iff.rfl)

/-- A row that is no wrap and no binding was there, or is the event that was stored. -/
theorem Task.mem_next {row : Event} (aside : row.kind ≠ deviceBinding ∧ row.kind ≠ giftWrap)
    (later : row ∈ (t.next node).1.store.events) : row ∈ node.store.events ∨ t.stores = some row := by
  rcases Task.rows_next t node aside with ⟨ev, stores, rows⟩ | ⟨_, before, _⟩
  · have inserted := rows.mp later
    rw [Store.mem_insert] at inserted
    split at inserted
    · rcases inserted with rfl | ⟨held, _⟩
      · exact .inr stores
      · exact .inl held
    · exact .inl inserted
  · exact .inl (before later)

/-- What a task sets out to drop is held then, and may be withdrawn. -/
theorem Task.drops_next {id : EventId} (drops : id ∈ (t.next node).2.drops) :
    ∃ row ∈ node.store.events, row.id = id ∧ deletableKinds.contains row.kind = true := by
  have silenced : ∀ {g : PublicKey}, id ∈ node.silenced g →
      ∃ row ∈ node.store.events, row.id = id ∧ deletableKinds.contains row.kind = true := by
    intro g listed
    obtain ⟨span, _, named⟩ := List.mem_flatMap.mp listed
    unfold Store.authoredIn at named
    split at named
    · cases named
    · obtain ⟨row, found, same⟩ := List.mem_map.mp named
      obtain ⟨held, _, selected, _⟩ := Store.mem_query.mp found
      simp only [Filter.selects, Filter.inGroup, Option.all_some, Bool.and_eq_true] at selected
      exact ⟨row, held, same, selected.1.1.1.2⟩
  rcases t with c | l
  · by_cases early : c.phase.isEarly = true
    · have none_ : ((Task.call c).next node).2.drops = [] := by
        rcases Call.next_early node early with ⟨verdict, ended, _⟩ | early' | ⟨_, storing, _⟩
        · simp only [Task.next, Task.drops, ended]
        · simp only [Task.next, Task.drops]
          split
          · rename_i removing
            rw [removing] at early'
            cases early'
          · rfl
        · simp only [Task.next, Task.drops, storing]
      rw [none_] at drops
      cases drops
    · rcases c with ⟨ev, source, now, phase⟩
      cases phase
      case naming =>
        obtain ⟨row, listed, same⟩ := List.mem_map.mp drops
        simp only [List.mem_filter, Store.byIds, Bool.and_eq_true] at listed
        exact ⟨row, listed.1.1, same, listed.2.1.1⟩
      case purging g' => exact silenced drops
      case storing =>
        rcases Phase.stored_cases ev (node.insert ev now).2 with phase | ⟨_, ⟨_, phase⟩ | ⟨_, phase⟩ | ⟨_, phase⟩ |
          ⟨_, phase⟩ | ⟨_, _, _, phase⟩⟩
        all_goals
          simp only [Task.next, Call.next, Task.drops, phase] at drops
          cases drops
      all_goals first | exact absurd rfl early | cases drops
  · cases l
    case purging g' left => exact silenced drops
    case waiting left =>
      cases left
      all_goals cases drops
    case comparing g' events left =>
      simp only [Task.next, Look.next] at drops
      revert drops
      split
      · exact fun drops => by cases drops
      · split <;> exact fun drops => by cases drops
    all_goals cases drops

/-- What is pending has been judged by the node as it was then. -/
theorem Call.pending_next (pending : (c.next node).2.isPending = true) :
    c.phase.isPending = true ∨ c.phase = .judging ∧ ∃ judgement, node.judged c.event c.source c.now = .ok judgement := by
  rcases c with ⟨ev, source, now, phase⟩
  cases phase
  case judging =>
    refine .inr ⟨rfl, ?_⟩
    simp only [Call.next] at pending
    cases judged : node.judged ev source now with
    | error refusal =>
      rw [judged] at pending
      cases pending
    | ok judgement => exact ⟨judgement, rfl⟩
  case storing =>
    exact .inl rfl
  case folding | booking | checking | undeleted | spacing => exact .inl rfl
  all_goals cases pending

/-- A call that stores next has found its event far enough from its author's others. -/
theorem Task.stores_next {ev : Event} (stores : (t.next node).2.stores = some ev) :
    (∃ c, t = .call c ∧ c.phase = .spacing ∧ c.event = ev) ∧ node.spaced ev = none := by
  cases t with
  | look l => cases stores
  | call c =>
    have next : (c.next node).2 = .storing ∧ c.event = ev := by
      simp only [Task.next, Task.stores] at stores
      split at stores
      · rename_i storing
        exact ⟨storing, Option.some.inj stores⟩
      · cases stores
    by_cases early : c.phase.isEarly = true
    · rcases Call.next_early node early with ⟨verdict, ended, _⟩ | early' | ⟨spacing, _, spaced⟩
      · rw [ended] at next
        cases next.1
      · rw [next.1] at early'
        cases early'
      · exact ⟨⟨c, rfl, spacing, next.2⟩, next.2 ▸ spaced⟩
    · rcases c with ⟨ev', source, now, phase⟩
      cases phase
      case storing =>
        rcases Phase.stored_cases ev' (node.insert ev' now).2 with phase | ⟨_, ⟨_, phase⟩ | ⟨_, phase⟩ | ⟨_, phase⟩ |
          ⟨_, phase⟩ | ⟨_, _, _, phase⟩⟩
        all_goals
          simp only [Call.next, phase] at next
          cases next.1
      all_goals first | exact absurd rfl early | cases next.1

/-- What is said and is accepted was so, or was about to be stored. -/
theorem Call.said_next (said : deletableKinds.contains c.event.kind = true) (plain : c.phase.isPlain = true) :
    (c.next node).2.isPlain = true ∧ ∀ ev, ((Task.call c).next node).2.accepts = some ev →
      (Task.call c).accepts = some ev ∨ (Task.call c).stores = some ev := by
  by_cases early : c.phase.isEarly = true
  · refine ⟨Call.plain_next early, fun ev accepts => ?_⟩
    simp only [Task.next, Task.accepts] at accepts
    split at accepts
    · rename_i stored
      rcases Call.next_early node early with ⟨verdict, ended, refused⟩ | early' | ⟨_, storing, _⟩
      · rw [ended] at stored
        cases stored
        cases refused
      · rw [stored] at early'
        cases early'
      · rw [storing] at stored
        cases stored
    · cases accepts
  · rcases c with ⟨ev, source, now, phase⟩
    cases phase
    case storing =>
      obtain ⟨notDeletion, notRemoval, notWrap, notList, idle⟩ := Inner.said_apart said
      rcases Phase.stored_cases ev (node.insert ev now).2 with phase | ⟨_, ⟨kind, _⟩ | ⟨kind, _⟩ | ⟨kind, _⟩ |
        ⟨kind, _⟩ | ⟨_, _, changes, _⟩⟩
      · simp only [Task.next, Call.next, Task.accepts, Task.stores, phase]
        exact ⟨rfl, fun _ => .inr⟩
      · exact absurd kind notDeletion
      · exact absurd kind notRemoval
      · exact absurd kind notWrap
      · exact absurd kind notList
      · rw [idle] at changes
        cases changes
    case ended verdict => exact ⟨rfl, fun _ => .inl⟩
    all_goals first | exact absurd rfl early | cases plain

end Steps

end HitEnter.Node
