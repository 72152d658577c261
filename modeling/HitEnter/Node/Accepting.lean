import HitEnter.Group.Readers
import HitEnter.Lib.Runs
import HitEnter.Node.Withdraw

/-! Calls of `acceptEvent` side by side. A message is looked up among the withdrawals
held and only then stored; a withdrawal is stored and only then applied; between the
two a message can slip in. -/

namespace HitEnter.Node

open Wire HitEnter.Group Lib.Runs

/-- How far a call has come: judged, past the check for deletions, past every check,
stored and still to be applied, with the targets to remove, and over. -/
inductive Stage where
  | entered
  | undeleted
  | checked
  | stored
  | removing (gone : List EventId)
  | ended
deriving DecidableEq

/-- An event being accepted. -/
structure Acceptance where
  event : Event
  stage : Stage
deriving DecidableEq

/-- A store, and the calls under way. -/
structure Desk [Nostr] where
  store : Store
  calls : List Acceptance := []

/-- A judged event enters, a call takes its next step or is refused before it stores,
or something else removes events. -/
inductive Desk.Act where
  | enter (ev : Event)
  | next (i : Nat)
  | refuse (i : Nat)
  | remove (ids : List EventId)

section Steps
variable [NostrEvents]

/-- The next step of a call: what it makes of the store, and where it is then. -/
def Acceptance.next (call : Acceptance) (store : Store) : Store × Stage :=
  let ev := call.event
  match call.stage with
  | .entered =>
    if !deletableKinds.contains ev.kind then (store, .checked)
    else if store.isDeleted ev.id ev.pubkey then (store, .ended)
    else (store, .undeleted)
  | .undeleted => if removedByModerator store ev then (store, .ended) else (store, .checked)
  | .checked =>
    if (store.insert ev).2 = .new ∧ (ev.kind = deletion ∨ ev.kind = deleteEvent) then ((store.insert ev).1, .stored)
    else ((store.insert ev).1, .ended)
  | .stored =>
    if ev.kind = deletion then ((store.applyDeletion ev deletableKinds).1, .ended)
    else (store, .removing (removalTargets store ev))
  | .removing gone => (store.remove gone, .ended)
  | .ended => (store, .ended)

def Desk.step (desk : Desk) : Desk.Act → Desk
  | .enter ev => { desk with calls := desk.calls ++ [⟨ev, .entered⟩] }
  | .next i =>
    match desk.calls[i]? with
    | none => desk
    | some call =>
      { store := (call.next desk.store).1, calls := desk.calls.set i ⟨call.event, (call.next desk.store).2⟩ }
  | .refuse i =>
    match desk.calls[i]? with
    | some ⟨ev, .checked⟩ => { desk with calls := desk.calls.set i ⟨ev, .ended⟩ }
    | _ => desk
  | .remove ids => { desk with store := desk.store.remove ids }

/-- Every held withdrawal of `ev` of that kind names it by its id's own text. -/
def legible (store : Store) (kind : Kind) (ev : Event) : Bool :=
  store.events.all fun row => row.kind != kind || !withdraws row ev || namesText row ev.id

/-- Past the check that looks for withdrawals of `kind`, and not stored yet. -/
def pastCheck (kind : Kind) (stage : Stage) : Bool :=
  stage == .checked || kind == deletion && stage == .undeleted

/-- When a step keeps what is withdrawn away: a message is checked while the
withdrawals held of it name it by its id's own text; and a withdrawal is applied, or its
targets looked up, while no message it withdraws is between its check and the store. -/
def Desk.meets (desk : Desk) : Desk.Act → Bool
  | .next i => (desk.calls[i]?).all fun call =>
    match call.stage with
    | .entered => legible desk.store deletion call.event
    | .undeleted => legible desk.store deleteEvent call.event
    | .stored => desk.calls.all fun other =>
      !withdraws call.event other.event || !pastCheck call.event.kind other.stage
    | _ => true
  | _ => true

/-- Nothing held is withdrawn by anything held. -/
def Desk.Clean (desk : Desk) : Prop :=
  ∀ row ∈ desk.store.events, ∀ ev ∈ desk.store.events, withdraws ev row = false

/-- No call is under way. -/
def Desk.Finished (desk : Desk) : Prop := ∀ call ∈ desk.calls, call.stage = .ended

/-! ### The invariant -/

/-- `ev` is stored and its call is still to apply it to `row`. -/
private def Pending (desk : Desk) (ev row : Event) : Prop :=
  ⟨ev, .stored⟩ ∈ desk.calls ∨ ∃ gone, ⟨ev, .removing gone⟩ ∈ desk.calls ∧ row.id ∈ gone

/-- Whatever withdraws something held is still to be applied to it; and whatever
withdraws an event past its check is stored and still to be applied at all. -/
private structure Guarded (desk : Desk) : Prop where
  held : ∀ row ∈ desk.store.events, ∀ ev ∈ desk.store.events, withdraws ev row = true → Pending desk ev row
  passed : ∀ call ∈ desk.calls, ∀ ev ∈ desk.store.events, withdraws ev call.event = true →
    pastCheck ev.kind call.stage = true → ⟨ev, .stored⟩ ∈ desk.calls

theorem withdraws_kind {ev row : Event} (withdrawn : withdraws ev row = true) :
    deletableKinds.contains row.kind = true ∧ (ev.kind = deletion ∨ ev.kind = deleteEvent) := by
  simp only [withdraws, Bool.and_eq_true, Bool.or_eq_true, beq_iff_eq] at withdrawn
  exact ⟨withdrawn.1.1, withdrawn.2.imp And.left fun removal => removal.1.1⟩

/-- A message found undeleted is not withdrawn by any deletion that names it legibly. -/
private theorem undeleted {store : Store} {row ev : Event} (legible : legible store deletion row = true)
    (clear : store.isDeleted row.id row.pubkey = false) (held : ev ∈ store.events) (kind : ev.kind = deletion) :
    withdraws ev row = false := by
  refine Bool.eq_false_iff.mpr fun withdrawn => ?_
  have named : namesText ev row.id = true := by
    simpa [kind, withdrawn] using List.all_eq_true.mp legible ev held
  have author : ev.pubkey = row.pubkey := by
    have other : (deletion == deleteEvent) = false := by decide
    simp only [withdraws, kind, other, Bool.false_and, Bool.or_false, Bool.and_eq_true, beq_iff_eq] at withdrawn
    exact withdrawn.2.2.symm
  have found := List.any_eq_false.mp clear ev held
  simp [named, kind, author] at found

/-- A message that no moderator is found to have removed is not withdrawn by any
removal that names it legibly. -/
private theorem unremoved {store : Store} {row ev : Event} (legible : legible store deleteEvent row = true)
    (clear : removedByModerator store row = false) (held : ev ∈ store.events) (kind : ev.kind = deleteEvent) :
    withdraws ev row = false := by
  refine Bool.eq_false_iff.mpr fun withdrawn => ?_
  have named : namesText ev row.id = true := by
    simpa [kind, withdrawn] using List.all_eq_true.mp legible ev held
  have place : groupOf ev = groupOf row ∧ channelOf ev = channelOf row := by
    have other : (deleteEvent == deletion) = false := by decide
    simp only [withdraws, kind, other, Bool.false_and, Bool.false_or, Bool.and_eq_true, beq_iff_eq] at withdrawn
    exact ⟨withdrawn.2.1.2.symm, withdrawn.2.2.symm⟩
  have listed : ev ∈ store.naming row.id deleteEvent := List.mem_filter.mpr ⟨held, by simp [named, kind]⟩
  have found := List.any_eq_false.mp clear ev listed
  simp [place] at found

omit [NostrEvents] in
private theorem mem_set_of_ne {calls : List Acceptance} {i : Nat} {old new call : Acceptance}
    (found : calls[i]? = some old) (member : call ∈ calls) (other : call ≠ old) : call ∈ calls.set i new := by
  obtain ⟨j, same⟩ := List.mem_iff_getElem?.mp member
  have apart : i ≠ j := by
    rintro rfl
    exact other (Option.some.inj (same.symm.trans found))
  exact List.mem_iff_getElem?.mpr ⟨j, by rw [List.getElem?_set_ne apart, same]⟩

omit [NostrEvents] in
private theorem mem_set_self {calls : List Acceptance} {i : Nat} {old new : Acceptance}
    (found : calls[i]? = some old) : new ∈ calls.set i new := by
  obtain ⟨inside, _⟩ := List.getElem?_eq_some_iff.mp found
  exact List.mem_iff_getElem?.mpr ⟨i, by simp [inside]⟩

/-- A withdrawal that is still to be applied is, also after another call's step. -/
private theorem Pending.moved {desk : Desk} {ev row : Event} {i : Nat} {call new : Acceptance} {store : Store}
    (pending : Pending desk ev row) (found : desk.calls[i]? = some call) (stored : call ≠ ⟨ev, .stored⟩)
    (removing : ∀ gone, row.id ∈ gone → call ≠ ⟨ev, .removing gone⟩) :
    Pending ⟨store, desk.calls.set i new⟩ ev row := by
  rcases pending with waiting | ⟨gone, waiting, named⟩
  · exact .inl (mem_set_of_ne found waiting stored.symm)
  · exact .inr ⟨gone, mem_set_of_ne found waiting (removing gone named).symm, named⟩

section Kept
variable {desk : Desk} {i : Nat} {call : Acceptance}

/-- A call that only looks, or gives up, comes to a stage that claims no more than it
has seen. -/
private theorem Guarded.looked (guarded : Guarded desk) (found : desk.calls[i]? = some call) (stage : Stage)
    (stored : call.stage ≠ .stored) (removing : ∀ gone, call.stage ≠ .removing gone)
    (seen : ∀ ev ∈ desk.store.events, withdraws ev call.event = true → pastCheck ev.kind stage = true →
      ⟨ev, .stored⟩ ∈ desk.calls) : Guarded ⟨desk.store, desk.calls.set i ⟨call.event, stage⟩⟩ := by
  have idle : ∀ ev, call ≠ ⟨ev, .stored⟩ := fun ev same => stored (by rw [same])
  constructor
  · intro row here ev held withdrawn
    exact (guarded.held row here ev held withdrawn).moved found (idle ev)
      fun gone _ same => removing gone (by rw [same])
  · intro other member ev held withdrawn past
    refine mem_set_of_ne found ?_ (idle ev).symm
    rcases List.mem_or_eq_of_mem_set member with earlier | rfl
    · exact guarded.passed other earlier ev held withdrawn past
    · exact seen ev held withdrawn past

private theorem Guarded.checks (guarded : Guarded desk) (found : desk.calls[i]? = some call)
    (entered : call.stage = .entered) (legible : legible desk.store deletion call.event = true) :
    Guarded (desk.step (.next i)) := by
  simp only [Desk.step, found, Acceptance.next, entered]
  split
  · rename_i other
    refine guarded.looked found .checked (by simp [entered]) (by simp [entered]) fun ev _ withdrawn _ => ?_
    simp only [(withdraws_kind withdrawn).1, Bool.not_true, Bool.false_eq_true] at other
  · split
    · exact guarded.looked found .ended (by simp [entered]) (by simp [entered]) fun _ _ _ past => by
        simp [pastCheck] at past
    · rename_i clear
      refine guarded.looked found .undeleted (by simp [entered]) (by simp [entered]) fun ev held withdrawn past => ?_
      have kind : ev.kind = deletion := by simpa [pastCheck] using past
      simp [undeleted legible (by simpa using clear) held kind] at withdrawn

private theorem Guarded.checksRemovals (guarded : Guarded desk) (found : desk.calls[i]? = some call)
    (looked : call.stage = .undeleted) (legible : legible desk.store deleteEvent call.event = true) :
    Guarded (desk.step (.next i)) := by
  simp only [Desk.step, found, Acceptance.next, looked]
  split
  · exact guarded.looked found .ended (by simp [looked]) (by simp [looked]) fun _ _ _ past => by
      simp [pastCheck] at past
  · rename_i clear
    refine guarded.looked found .checked (by simp [looked]) (by simp [looked]) fun ev held withdrawn _ => ?_
    rcases (withdraws_kind withdrawn).2 with kind | kind
    · exact guarded.passed call (List.mem_of_getElem? found) ev held withdrawn (by simp [pastCheck, kind, looked])
    · simp [unremoved legible (by simpa using clear) held kind] at withdrawn

/-- What is stored was looked up, and a withdrawal that is stored waits to be applied. -/
private theorem Guarded.stores (guarded : Guarded desk) (found : desk.calls[i]? = some call)
    (checked : call.stage = .checked) : Guarded (desk.step (.next i)) := by
  have here : call ∈ desk.calls := List.mem_of_getElem? found
  have idle : ∀ ev, call ≠ ⟨ev, .stored⟩ := fun ev same => by simp [same] at checked
  have idle' : ∀ ev gone, call ≠ ⟨ev, .removing gone⟩ := fun ev gone same => by simp [same] at checked
  simp only [Desk.step, found, Acceptance.next, checked]
  by_cases new : (desk.store.insert call.event).2 = .new
  · have rows : ∀ row ∈ (desk.store.insert call.event).1.events, row = call.event ∨ row ∈ desk.store.events := by
      intro row member
      rw [Store.mem_insert, if_pos new] at member
      exact member.imp_right And.left
    have kept : ∀ (stage : Stage), (∀ row, withdraws call.event row = true → stage = .stored) →
        (∀ kind, pastCheck kind stage = false) →
        Guarded ⟨(desk.store.insert call.event).1, desk.calls.set i ⟨call.event, stage⟩⟩ := by
      intro stage waits ended
      constructor
      · intro row member ev held withdrawn
        rcases rows ev held with rfl | held
        · obtain rfl := waits row withdrawn
          exact .inl (mem_set_self found)
        · rcases rows row member with rfl | member
          · exact .inl (mem_set_of_ne found
              (guarded.passed call here ev held withdrawn (by simp [pastCheck, checked])) (idle ev).symm)
          · exact (guarded.held row member ev held withdrawn).moved found (idle ev) fun gone _ => idle' ev gone
      · intro other member ev held withdrawn past
        rcases List.mem_or_eq_of_mem_set member with earlier | rfl
        · rcases rows ev held with rfl | held
          · obtain rfl := waits other.event withdrawn
            exact mem_set_self found
          · exact mem_set_of_ne found (guarded.passed other earlier ev held withdrawn past) (idle ev).symm
        · simp [ended] at past
    split
    · exact kept .stored (fun _ _ => rfl) fun kind => by simp [pastCheck]
    · rename_i plain
      exact kept .ended (fun row withdrawn => absurd ⟨new, (withdraws_kind withdrawn).2⟩ plain)
        fun kind => by simp [pastCheck]
  · have rows : ∀ row, row ∈ (desk.store.insert call.event).1.events ↔ row ∈ desk.store.events := by
      intro row
      rw [Store.mem_insert, if_neg new]
    have ended := guarded.looked found .ended (by simp [checked]) (by simp [checked]) fun _ _ _ past => by
      simp [pastCheck] at past
    rw [if_neg fun both => new both.1]
    constructor
    · intro row member ev held withdrawn
      exact ended.held row ((rows row).mp member) ev ((rows ev).mp held) withdrawn
    · intro other member ev held withdrawn past
      exact ended.passed other member ev ((rows ev).mp held) withdrawn past

/-- While no message it withdraws is past its check, a withdrawal is applied to all
there are. -/
private theorem Guarded.applies (guarded : Guarded desk) (found : desk.calls[i]? = some call)
    (waits : call.stage = .stored)
    (clear : ∀ other ∈ desk.calls, withdraws call.event other.event = true →
      pastCheck call.event.kind other.stage = false) : Guarded (desk.step (.next i)) := by
  have idle : ∀ ev gone, call ≠ ⟨ev, .removing gone⟩ := fun ev gone same => by simp [same] at waits
  have passed : ∀ (store : Store) (stage : Stage), (∀ row ∈ store.events, row ∈ desk.store.events) →
      (∀ kind, pastCheck kind stage = false) → ∀ other ∈ desk.calls.set i ⟨call.event, stage⟩, ∀ ev ∈ store.events,
        withdraws ev other.event = true → pastCheck ev.kind other.stage = true →
          ⟨ev, .stored⟩ ∈ desk.calls.set i ⟨call.event, stage⟩ := by
    intro store stage rows ended other member ev held withdrawn past
    rcases List.mem_or_eq_of_mem_set member with earlier | rfl
    · refine mem_set_of_ne found (guarded.passed other earlier ev (rows ev held) withdrawn past) fun same => ?_
      obtain rfl : ev = call.event := by rw [← same]
      simp [clear other earlier withdrawn] at past
    · simp [ended] at past
  simp only [Desk.step, found, Acceptance.next, waits]
  split
  · rename_i kind
    have rows : ∀ row ∈ (desk.store.applyDeletion call.event deletableKinds).1.events, row ∈ desk.store.events ∧
        withdraws call.event row = false := by
      intro row member
      obtain ⟨held, spared⟩ := Store.mem_applyDeletion.mp member
      refine ⟨held, Bool.eq_false_iff.mpr fun withdrawn => spared ?_⟩
      have other : (deletion == deleteEvent) = false := by decide
      simp only [withdraws, kind, other, Bool.false_and, Bool.or_false, Bool.and_eq_true, beq_iff_eq,
        List.contains_iff_mem] at withdrawn
      exact ⟨withdrawn.1.2, withdrawn.2.2, by simpa using withdrawn.1.1⟩
    refine ⟨fun row member ev held withdrawn => ?_, passed _ .ended (fun row member => (rows row member).1)
      fun kind => by simp [pastCheck]⟩
    refine (guarded.held row (rows row member).1 ev (rows ev held).1 withdrawn).moved found (fun same => ?_)
      fun gone _ => idle ev gone
    obtain rfl : ev = call.event := by rw [same]
    simp [(rows row member).2] at withdrawn
  · rename_i kind
    refine ⟨fun row member ev held withdrawn => ?_, passed _ _ (fun _ member => member) fun kind => by
      simp [pastCheck]⟩
    by_cases own : ev = call.event
    · subst own
      have removal := (withdraws_kind withdrawn).2.resolve_left kind
      exact .inr ⟨_, mem_set_self found, mem_removalTargets member removal withdrawn⟩
    · exact (guarded.held row member ev held withdrawn).moved found (fun same => own (by rw [same]))
        fun gone _ => idle ev gone

private theorem Guarded.removes (guarded : Guarded desk) (found : desk.calls[i]? = some call) {gone : List EventId}
    (removing : call.stage = .removing gone) : Guarded (desk.step (.next i)) := by
  have idle : ∀ ev, call ≠ ⟨ev, .stored⟩ := fun ev same => by simp [same] at removing
  simp only [Desk.step, found, Acceptance.next, removing]
  constructor
  · intro row member ev held withdrawn
    obtain ⟨member, spared⟩ := Store.mem_remove.mp member
    refine (guarded.held row member ev (Store.mem_remove.mp held).1 withdrawn).moved found (idle ev) ?_
    rintro gone' named same
    obtain rfl : gone = gone' := by simpa [same] using removing.symm
    exact spared named
  · intro other member ev held withdrawn past
    refine mem_set_of_ne found ?_ (idle ev).symm
    rcases List.mem_or_eq_of_mem_set member with earlier | rfl
    · exact guarded.passed other earlier ev (Store.mem_remove.mp held).1 withdrawn past
    · simp [pastCheck] at past

private theorem Guarded.step {act : Desk.Act} (met : desk.meets act = true) (guarded : Guarded desk) :
    Guarded (desk.step act) := by
  cases act with
  | enter ev =>
    constructor
    · intro row member e held withdrawn
      exact (guarded.held row member e held withdrawn).imp (List.mem_append_left _)
        fun ⟨gone, waiting, named⟩ => ⟨gone, List.mem_append_left _ waiting, named⟩
    · intro other member e held withdrawn past
      rcases List.mem_append.mp member with earlier | new
      · exact List.mem_append_left _ (guarded.passed other earlier e held withdrawn past)
      · rw [List.mem_singleton.mp new] at past
        simp [pastCheck] at past
  | next i =>
    cases found : desk.calls[i]? with
    | none => simpa [Desk.step, found] using guarded
    | some call =>
      simp only [Desk.meets, found, Option.all_some] at met
      cases stage : call.stage with
      | entered => exact guarded.checks found stage (by simpa [stage] using met)
      | undeleted => exact guarded.checksRemovals found stage (by simpa [stage] using met)
      | checked => exact guarded.stores found stage
      | stored =>
        refine guarded.applies found stage fun other member withdrawn => ?_
        simp only [stage] at met
        have apart := List.all_eq_true.mp met other member
        simpa [withdrawn] using apart
      | removing gone => exact guarded.removes found stage
      | ended =>
        have same := guarded.looked found .ended (by simp [stage]) (by simp [stage]) fun _ _ _ past => by
          simp [pastCheck] at past
        simpa [Desk.step, found, Acceptance.next, stage] using same
  | refuse i =>
    simp only [Desk.step]
    split
    · rename_i ev found
      exact guarded.looked found .ended (by simp) (by simp) fun _ _ _ past => by simp [pastCheck] at past
    · exact guarded
  | remove ids =>
    constructor
    · intro row member e held withdrawn
      exact guarded.held row (Store.mem_remove.mp member).1 e (Store.mem_remove.mp held).1 withdrawn
    · intro other member e held withdrawn past
      exact guarded.passed other member e (Store.mem_remove.mp held).1 withdrawn past

end Kept

end Steps

/-- The guest takes back what they said. -/
def takenBack : Event :=
  signed guest 510 deletion
    [Draft.h club, ["e", NostrEvents.eventIdToHex (hello 500).id], ["channel", "general"]] ""

/-- Both calls, one after the other. -/
def oneByOne : List Desk.Act :=
  [.enter (hello 500), .next 0, .next 0, .next 0, .enter takenBack, .next 1, .next 1, .next 1]

/-- The deletion is stored and applied while the message is past its check. -/
def sideBySide : List Desk.Act :=
  [.enter (hello 500), .next 0, .next 0, .enter takenBack, .next 1, .next 1, .next 1, .next 0]

end HitEnter.Node
