import HitEnter.Group.EditSpec
import HitEnter.Group.FoldSpec

/-! The fold as a run of tries. A try applies its action or changes nothing that a
later action looks at; the books of the fold (its key, cutoff, invites and the
like) no action touches; and the states of the run are the reached ones. -/

namespace HitEnter.Group.GroupState

open Wire Lib.Rounds Lib.Checks

variable {s next : GroupState} {actor : PublicKey} {date : Timestamp}

theorem exists_dates (events : List Event) :
    ∃ dates : List Timestamp, dates.Pairwise (· < ·) ∧ ∀ ev ∈ events, ev.createdAt ∈ dates := by
  refine ⟨(events.map Event.createdAt).toFinset.sort (· ≤ ·), ?_, ?_⟩
  · exact (Finset.sortedLT_sort _).pairwise
  · intro ev member
    simpa using ⟨ev, member, rfl⟩

/-- What no action changes, accepted or not. -/
structure Kept (s next : GroupState) : Prop where
  id : next.id = s.id
  seq : next.seq = s.seq
  cutoff : next.cutoff = s.cutoff
  owner : next.owner = s.owner
  namedOwner : next.namedOwner = s.namedOwner
  invites : next.invites = s.invites
  applied : next.applied = s.applied

private theorem checked_kept {check : Except Refusal α} {write : α → GroupState}
    (writes : ∀ value, check = .ok value → Kept s (write value)) : Kept s (s.checked check write).1 := by
  cases check with
  | error refusal => exact ⟨rfl, rfl, rfl, rfl, rfl, rfl, rfl⟩
  | ok value => exact writes value rfl

private theorem edits_kept {batch : List Edit} (ok : s.edits actor batch = .ok next) : Kept s next := by
  refine edits_invariant (Kept s) ok ⟨rfl, rfl, rfl, rfl, rfl, rfl, rfl⟩ ?_
  intro before e after _ edited kept
  cases edited <;> exact { kept with }

private theorem applyMute_kept {target : PublicKey} {until_ : Option Timestamp} :
    Kept s (s.applyMute actor date target until_).1 := by
  unfold applyMute
  split
  · exact ⟨rfl, rfl, rfl, rfl, rfl, rfl, rfl⟩
  · cases until_ with
    | none => simp only; split <;> exact ⟨rfl, rfl, rfl, rfl, rfl, rfl, rfl⟩
    | some u => simp only; split <;> exact ⟨rfl, rfl, rfl, rfl, rfl, rfl, rfl⟩

theorem act_kept (s : GroupState) (actor : PublicKey) (date : Timestamp) (action : Action) :
    Kept s (s.act actor date action).1 := by
  cases action with
  | put target roles =>
    refine checked_kept fun wanted _ => ?_
    simp only
    split <;> exact ⟨rfl, rfl, rfl, rfl, rfl, rfl, rfl⟩
  | remove target ban =>
    refine checked_kept fun _ _ => ?_
    simp only
    split <;> split <;> split <;> exact ⟨rfl, rfl, rfl, rfl, rfl, rfl, rfl⟩
  | unban target => exact checked_kept fun _ _ => ⟨rfl, rfl, rfl, rfl, rfl, rfl, rfl⟩
  | mute target until_ => exact applyMute_kept
  | edit batch =>
    refine checked_kept fun after ran => ?_
    simp only [bind_eq_ok] at ran
    obtain ⟨_, _, ran⟩ := ran
    exact edits_kept ran
  | join code => exact checked_kept fun _ _ => ⟨rfl, rfl, rfl, rfl, rfl, rfl, rfl⟩
  | leave => exact checked_kept fun _ _ => ⟨rfl, rfl, rfl, rfl, rfl, rfl, rfl⟩
  | invite code expires => exact ⟨rfl, rfl, rfl, rfl, rfl, rfl, rfl⟩

section Tries
variable [Nostr] {group : PublicKey} {events : List Event} {ev : Event}

theorem apply_kept (s : GroupState) (ev : Event) : Kept s (s.apply ev).1 := by
  unfold apply
  split
  · exact ⟨rfl, rfl, rfl, rfl, rfl, rfl, rfl⟩
  · exact act_kept _ _ _ _

/-- A try leaves the books alone, but for marking what it applied. -/
theorem attempt_kept (s : GroupState) (ev : Event) :
    Kept { s with applied := (s.attempt ev).1.applied } (s.attempt ev).1 := by
  have kept := apply_kept s ev
  unfold attempt
  split <;> rename_i outcome <;> rw [outcome] at kept <;> exact { kept with applied := rfl }

theorem attempt_applied (s : GroupState) (ev : Event) : (s.attempt ev).1.applied =
    if (s.attempt ev).2 then s.applied.insert ev.id else s.applied := by
  have kept := apply_kept s ev
  unfold attempt
  split
  · rename_i outcome
    rw [outcome] at kept
    simp only [↓reduceIte]
    rw [kept.applied]
  · rename_i outcome
    rw [outcome] at kept
    simpa using kept.applied

/-- A try applies its action, or leaves all but the spans as it was. -/
theorem attempt_cases (s : GroupState) (ev : Event) :
    (∃ next, s.apply ev = (next, .ok ()) ∧
        s.attempt ev = ({ next with applied := next.applied.insert ev.id }, true)) ∨
      (∃ refusal, (s.apply ev).2 = .error refusal) ∧
        ∃ spans, s.attempt ev = ({ s with silences := spans }, false) := by
  unfold attempt
  split
  · rename_i next ok
    exact .inl ⟨next, ok, rfl⟩
  · rename_i next refusal refused
    refine .inr ⟨⟨refusal, by rw [refused]⟩, ?_⟩
    rcases apply_error refused with same | ⟨_, _, _, _, _, ended⟩
    · exact ⟨s.silences, by rw [same]⟩
    · exact ⟨_, by rw [ended]; rfl⟩

/-- What the fold's states have in common: the start has it, an accepted action
keeps it, and it is not about spans or what was applied. -/
theorem Reached.invariant {Inv : GroupState → Prop}
    (initial : ∀ s, GroupState.start group events = some s → Inv s)
    (accepted : ∀ s ev next, ev ∈ live group events s.cutoff → s.apply ev = (next, .ok ()) → Inv s → Inv next)
    (spans : ∀ s silences, Inv s → Inv { s with silences := silences })
    (marks : ∀ s applied, Inv s → Inv { s with applied := applied })
    (reached : Reached group events s) : Inv s := by
  induction reached with
  | start found => exact initial _ found
  | attempt earlier member ih =>
    rename_i s ev
    rcases attempt_cases s ev with ⟨next, ok, same⟩ | ⟨_, spans', same⟩
    · rw [same]
      exact marks _ _ (accepted s ev next member ok ih)
    · rw [same]
      exact spans _ _ ih

/-! ### The run -/

theorem live_sorted (group : PublicKey) (events : List Event) (cutoff : Timestamp) :
    (live group events cutoff).Pairwise fun a b => a.createdAt ≤ b.createdAt :=
  ((sortActions_sorted _).imp createdAt_le_of_sortKey_le).filter _

theorem mem_live {cutoff : Timestamp} : ev ∈ live group events cutoff ↔
    ev ∈ events ∧ isAction group ev = true ∧ ev.kind ≠ createInvite ∧ cutoff ≤ ev.createdAt := by
  simp [live, mem_sortActions, scan_actions, isLive, and_assoc]

/-- Which actions are live in one second, read off as sets. -/
theorem live_filter_congr {others : List Event} {cutoff cutoff' d : Timestamp}
    (distinct : ((events.filter (isAction group)).map Event.id).Nodup)
    (distinct' : ((others.filter (isAction group)).map Event.id).Nodup)
    (same : ∀ ev, isAction group ev = true → ev.kind ≠ createInvite → ev.createdAt = d →
      (ev ∈ events ∧ cutoff ≤ d ↔ ev ∈ others ∧ cutoff' ≤ d)) :
    ((live group events cutoff).filter fun ev => ev.createdAt = d) =
      (live group others cutoff').filter fun ev => ev.createdAt = d := by
  simp only [live, scan_actions, List.filter_filter]
  refine filter_sortActions_congr _ _ ?_ (ids_injective distinct)
  refine (List.perm_ext_iff_of_nodup ?_ ?_).mpr fun ev => ?_
  · exact (List.Nodup.of_map _ distinct).filter _
  · exact (List.Nodup.of_map _ distinct').filter _
  · have both := same ev
    simp only [List.mem_filter, isLive, Bool.and_eq_true, decide_eq_true_eq, bne_iff_ne]
    constructor
    · rintro ⟨⟨here, action⟩, due, kind, since⟩
      have there := (both action kind due).mp ⟨here, due ▸ since⟩
      exact ⟨⟨there.1, action⟩, due, kind, due ▸ there.2⟩
    · rintro ⟨⟨here, action⟩, due, kind, since⟩
      have there := (both action kind due).mpr ⟨here, due ▸ since⟩
      exact ⟨⟨there.1, action⟩, due, kind, due ▸ there.2⟩

/-- The fold, second by second over any list of seconds that has them all. -/
theorem fold_eq_runDates {dates : List Timestamp} (increasing : dates.Pairwise (· < ·))
    (covers : ∀ s, start group events = some s → ∀ ev ∈ live group events s.cutoff, ev.createdAt ∈ dates) :
    fold group events = (start group events).map fun s =>
      runDates attempt Event.createdAt dates s (live group events s.cutoff) := by
  unfold fold
  cases found : start group events with
  | none => rfl
  | some s =>
    simp only [Option.bind_eq_bind, Option.bind_some, Option.pure_def, Option.map_some]
    rw [runBatches_eq_runDates (live_sorted _ _ _) increasing (covers s found)]

/-- Reached, with the cutoff the run began with. -/
private def Along (group : PublicKey) (events : List Event) (first t : GroupState) : Prop :=
  Reached group events t ∧ t.cutoff = first.cutoff

/-- The fold ends in a state it reached. -/
theorem fold_reached (found : fold group events = some s) : Reached group events s := by
  obtain ⟨dates, increasing, covers⟩ := exists_dates (scan group events).actions
  have all : ∀ s, start group events = some s → ∀ ev ∈ live group events s.cutoff, ev.createdAt ∈ dates :=
    fun s _ ev member => covers ev (mem_sortActions.mp (List.mem_filter.mp member).1)
  rw [fold_eq_runDates increasing all, Option.map_eq_some_iff] at found
  obtain ⟨first, begun, rfl⟩ := found
  have ended : Along group events first
      (runDates attempt Event.createdAt dates first (live group events first.cutoff)) := by
    refine runDates_invariant ?_ ⟨.start begun, rfl⟩
    rintro t ev member ⟨reached, same⟩
    exact ⟨.attempt reached (same ▸ member), (attempt_kept t ev).cutoff.trans same⟩
  exact ended.1

/-- Every state has the books the fold began with. -/
theorem Reached.kept (reached : Reached group events s) :
    ∃ first, GroupState.start group events = some first ∧ Kept { first with applied := s.applied } s := by
  induction reached with
  | start found => exact ⟨_, found, rfl, rfl, rfl, rfl, rfl, rfl, rfl⟩
  | attempt earlier member ih =>
    rename_i t ev
    obtain ⟨first, begun, kept⟩ := ih
    have tried := attempt_kept t ev
    exact ⟨first, begun, tried.id.trans kept.id, tried.seq.trans kept.seq, tried.cutoff.trans kept.cutoff,
      tried.owner.trans kept.owner, tried.namedOwner.trans kept.namedOwner,
      tried.invites.trans kept.invites, rfl⟩

end Tries

end HitEnter.Group.GroupState
