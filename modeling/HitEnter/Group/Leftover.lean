import HitEnter.Group.Core
import HitEnter.Group.Snapshot

/-! Folds of different parts of the same events. A part that has every action which a fold
with it would apply folds to the same group as any other such part, if both start from the
same snapshot and hold the same invites. -/

namespace HitEnter.Group.GroupState

open Wire Lib.Rounds

variable [Nostr] {group : PublicKey} {events others offered held : List Event} {s t : GroupState}

/-! ### Where a fold starts -/

omit [Nostr] in
private theorem nodup_acts [Nostr] (distinct : ((events.filter (isAction group)).map Event.id).Nodup) :
    (events.filter (isAction group)).Nodup := .of_map _ distinct

/-- Only the invites among the actions are recorded. -/
private theorem recordInvite_filter (actions : List Event) (invites : BTreeMap String (List Invite)) :
    actions.foldl recordInvite invites = (actions.filter (·.kind == createInvite)).foldl recordInvite invites := by
  induction actions generalizing invites with
  | nil => rfl
  | cons ev rest ih =>
    by_cases invite : ev.kind = createInvite
    · rw [List.filter_cons_of_pos (by simpa using invite), List.foldl_cons, List.foldl_cons, ih]
    · have none_ : recordInvite invites ev = invites := if_neg invite
      rw [List.filter_cons_of_neg (by simpa using invite), List.foldl_cons, none_, ih]

/-- Some of the sorted actions, read off as a set. -/
private theorem sorted_congr {keep keep' : Event → Bool}
    (distinct : ((events.filter (isAction group)).map Event.id).Nodup)
    (distinct' : ((others.filter (isAction group)).map Event.id).Nodup)
    (same : ∀ ev, isAction group ev = true → (ev ∈ events ∧ keep ev = true ↔ ev ∈ others ∧ keep' ev = true)) :
    (sortActions (scan group events).actions).filter keep = (sortActions (scan group others).actions).filter keep' := by
  rw [scan_actions, scan_actions]
  refine filter_sortActions_congr _ _ ?_ (ids_injective distinct)
  refine (List.perm_ext_iff_of_nodup ((nodup_acts distinct).filter _) ((nodup_acts distinct').filter _)).mpr fun ev => ?_
  simp only [List.mem_filter]
  constructor
  · rintro ⟨⟨here, action⟩, kept⟩
    have there := (same ev action).mp ⟨here, kept⟩
    exact ⟨⟨there.1, action⟩, there.2⟩
  · rintro ⟨⟨here, action⟩, kept⟩
    have there := (same ev action).mpr ⟨here, kept⟩
    exact ⟨⟨there.1, action⟩, there.2⟩

/-- The invites that a fold of `events` goes by. -/
def recorded (group : PublicKey) (events : List Event) : BTreeMap String (List Invite) :=
  (sortActions (scan group events).actions).foldl recordInvite ∅

private theorem recorded_congr (distinct : ((events.filter (isAction group)).map Event.id).Nodup)
    (distinct' : ((others.filter (isAction group)).map Event.id).Nodup)
    (invites : ∀ ev, isAction group ev = true → ev.kind = createInvite → (ev ∈ events ↔ ev ∈ others)) :
    recorded group events = recorded group others := by
  rw [recorded, recorded, recordInvite_filter, recordInvite_filter (sortActions (scan group others).actions)]
  refine congrArg (·.foldl recordInvite ∅) (sorted_congr distinct distinct' fun ev action => ?_)
  by_cases invite : ev.kind = createInvite
  · simp [invites ev action invite]
  · simp [invite]

/-- The same pieces, and the owner whom they name signed on both sides or on neither: the same start, but
for the invites. -/
theorem start_congr (pieces : ∀ kind : Kind, (scan group events).pieces[kind]? = (scan group others).pieces[kind]?)
    (signed : ∀ w, winners group events = some w → ∀ p, w.namedOwner = some p →
      (p ∈ (scan group events).creators ↔ p ∈ (scan group others).creators)) :
    start group others = (start group events).map fun s => { s with invites := recorded group others } := by
  have won : winners group events = winners group others := by
    unfold winners winning
    simp only [pieces]
  have states : snapshotState group (scan group events) = snapshotState group (scan group others) := by
    rw [snapshotState_eq, snapshotState_eq, ← won]
    cases here : winners group events with
    | none => rfl
    | some w =>
      have owner : w.owner (scan group events).creators = w.owner (scan group others).creators := by
        unfold Winners.owner
        cases named : w.namedOwner with
        | none => rfl
        | some p =>
          have both : (scan group events).creators.contains p = (scan group others).creators.contains p := by
            rw [Bool.eq_iff_iff, Std.ExtTreeSet.contains_iff_mem, Std.ExtTreeSet.contains_iff_mem]
            exact signed w here p named
          simp [Option.filter, both]
      simp only [Option.map_some, Winners.state, Winners.memberMap, owner]
  unfold start
  rw [← states]
  cases snapshotState group (scan group events) with
  | none => rfl
  | some s => rfl

/-- A fold keeps the owner whom its snapshot names. -/
theorem fold_namedOwner {w : Winners} (won : winners group events = some w) :
    ∃ s, fold group events = some s ∧ s.namedOwner = w.namedOwner := by
  have begun : start group events = some { w.state group (scan group events).creators with
      invites := (sortActions (scan group events).actions).foldl recordInvite ∅ } := by
    rw [start, snapshotState_eq, won]
    rfl
  obtain ⟨s, folds⟩ : ∃ s, fold group events = some s := by
    rw [fold, begun]
    exact ⟨_, rfl⟩
  obtain ⟨first, starts, kept⟩ := (fold_reached folds).kept
  obtain rfl := Option.some.inj (begun.symm.trans starts)
  exact ⟨_, folds, kept.namedOwner⟩

/-! ### What a run makes of it -/

/-- The same group and the same invites, whatever the spans and whatever was applied. -/
def SameGroup (s t : GroupState) : Prop := s.core = t.core ∧ s.invites = t.invites

omit [Nostr] in
theorem sameGroup_equivalence : Equivalence SameGroup where
  refl _ := ⟨rfl, rfl⟩
  symm same := ⟨same.1.symm, same.2.symm⟩
  trans first second := ⟨first.1.trans second.1, first.2.trans second.2⟩

omit [Nostr] in
private theorem SameGroup.honours (same : SameGroup s t) (code : Option String) (date : Timestamp) :
    s.honours code date = t.honours code date := by
  cases code with
  | none => exact congrArg Core.isPublic same.1
  | some code =>
    have bases : ∀ p, s.base p = t.base p := fun p => congrArg (fun c => c.bare.base p) same.1
    have doors : s.honouredBy date = t.honouredBy date := by
      funext invite
      simp only [honouredBy, bases]
    simp only [GroupState.honours, same.2, doors]

private theorem SameGroup.attempt (same : SameGroup s t) (ev : Event) :
    (s.attempt ev).2 = (t.attempt ev).2 ∧ SameGroup (s.attempt ev).1 (t.attempt ev).1 := by
  have both : (s.attempt ev).2 = (t.attempt ev).2 ∧ (s.attempt ev).1.core = (t.attempt ev).1.core :=
    attempt_congr same.1 fun _ code _ => same.honours code ev.createdAt
  refine ⟨both.1, both.2, ?_⟩
  exact (attempt_kept s ev).invites.trans (same.2.trans (attempt_kept t ev).invites.symm)

/-- A refused action leaves the same group. -/
private theorem sameGroup_refused {ev : Event} (refused : (s.attempt ev).2 = false) : SameGroup (s.attempt ev).1 s := by
  rcases attempt_cases s ev with ⟨next, _, taken⟩ | ⟨_, spans, same⟩
  · rw [taken] at refused
    cases refused
  · rw [same]
    exact ⟨rfl, rfl⟩

/-- The fold applied `ev`. -/
def Applied (s : GroupState) (ev : Event) : Prop := ev.id ∈ s.applied

private theorem applied_attempt {ev other : Event} (applied : Applied s other) : Applied (s.attempt ev).1 other := by
  unfold Applied
  rw [attempt_applied]
  split
  · exact Std.ExtTreeSet.mem_insert.mpr (.inr applied)
  · exact applied

private theorem applied_of_accepted {ev : Event} (accepted : (s.attempt ev).2 = true) : Applied (s.attempt ev).1 ev := by
  unfold Applied
  rw [attempt_applied, if_pos accepted]
  exact Std.ExtTreeSet.mem_insert_self

/-- Of the actions `offered` that are not before the snapshot, `held` has every one that a fold of it
and `held` would apply. -/
structure Exhausts (group : PublicKey) (offered held : List Event) : Prop where
  subset : ∀ ev ∈ held, isAction group ev = true → ev ∈ offered
  distinct : ((held.filter (isAction group)).map Event.id).Nodup
  refused : ∀ s, fold group held = some s → ∀ ev ∈ offered, isAction group ev = true → ev.kind ≠ createInvite →
    s.cutoff ≤ ev.createdAt → ev ∉ held → ∀ t, fold group (held ++ [ev]) = some t → ¬ Applied t ev

/-- One more action that is no invite starts the fold where it started. -/
private theorem start_concat {ev : Event} (distinct : (((held ++ [ev]).filter (isAction group)).map Event.id).Nodup)
    (action : isAction group ev = true) (plain : ev.kind ≠ createInvite) : start group (held ++ [ev]) = start group held := by
  have kind : actionKinds.contains ev.kind = true := (Bool.and_eq_true_iff.mp action).2
  have fewer : ((held.filter (isAction group)).map Event.id).Nodup := by
    rw [List.filter_append, List.map_append] at distinct
    exact (List.nodup_append.mp distinct).1
  have invites : recorded group held = recorded group (held ++ [ev]) := by
    refine recorded_congr fewer distinct fun e _ invite => ?_
    have other : e ≠ ev := fun same => plain (same ▸ invite)
    simp [other]
  have same : start group (held ++ [ev]) =
      (start group held).map fun s => { s with invites := recorded group (held ++ [ev]) } := by
    refine start_congr (fun k => ?_) fun _ _ p _ => ?_
    · simp [scan_pieces, List.filter_append, not_piece kind k]
    · simp [mem_scan_creators, or_and_right, exists_or, not_creator kind]
  rw [same, ← invites]
  cases begun : start group held with
  | none => rfl
  | some s =>
    rw [Option.map_some, recorded, ← start_invites begun]

/-- The part of what is offered that `held` has, as the run sees it. -/
private def missing (held : List Event) (ev : Event) : Bool := decide (ev ∉ held)

section Run
variable {dates : List Timestamp} (increasing : dates.Pairwise (· < ·)) (covers : ∀ ev ∈ offered, ev.createdAt ∈ dates)
include increasing covers

private theorem fold_part (within : ∀ ev ∈ events, isAction group ev = true → ev ∈ offered)
    (begun : start group events = some s) :
    fold group events = some (runDates attempt Event.createdAt dates s (live group events s.cutoff)) := by
  rw [fold_eq_runDates increasing fun _ _ ev member => ?_, begun, Option.map_some]
  obtain ⟨here, action, _, _⟩ := mem_live.mp member
  exact covers ev (within ev here action)

/-- An action that is missing is not applied by the run that has it besides what is held. -/
private theorem Exhausts.spurned (exhausts : Exhausts group offered held) (ids : (offered.map Event.id).Nodup)
    (begun : start group held = some s) {ev : Event} (member : ev ∈ live group offered s.cutoff)
    (absent : ev ∉ held) : ¬ Applied (runDates attempt Event.createdAt dates s
      (withOnly (missing held) ev (live group offered s.cutoff))) ev := by
  obtain ⟨offers, action, plain, since⟩ := mem_live.mp member
  have own : ((offered.filter (isAction group)).map Event.id).Nodup := ids.sublist (List.filter_sublist.map _)
  have more : (((held ++ [ev]).filter (isAction group)).map Event.id).Nodup := by
    rw [List.filter_append, List.filter_cons_of_pos action, List.filter_nil, List.map_append, List.map_singleton]
    refine exhausts.distinct.append (List.nodup_singleton _) ?_
    intro id first second
    obtain ⟨e, here, rfl⟩ := List.mem_map.mp first
    obtain ⟨here, acts⟩ := List.mem_filter.mp here
    have same := ids_injective ids e (exhausts.subset e here acts) ev offers (List.mem_singleton.mp second)
    exact absent (same ▸ here)
  have within : ∀ e ∈ held ++ [ev], isAction group e = true → e ∈ offered := by
    intro e listed acts
    rcases List.mem_append.mp listed with here | last
    · exact exhausts.subset e here acts
    · exact List.mem_singleton.mp last ▸ offers
  have only : live group (held ++ [ev]) s.cutoff = withOnly (missing held) ev (live group offered s.cutoff) := by
    rw [live, live, withOnly, List.filter_filter]
    refine sorted_congr more own fun e acts => ?_
    simp only [missing, decide_not, Bool.not_not, Bool.and_eq_true, Bool.or_eq_true, decide_eq_true_eq, beq_iff_eq,
      List.mem_append, List.mem_singleton]
    constructor
    · rintro ⟨here | rfl, kept⟩
      · exact ⟨exhausts.subset e here acts, .inl here, kept⟩
      · exact ⟨offers, .inr rfl, kept⟩
    · rintro ⟨_, here, kept⟩
      exact ⟨here, kept⟩
  have folds := fold_part increasing covers exhausts.subset begun
  have folds' := fold_part increasing covers within ((start_concat more action plain).trans begun)
  obtain ⟨first, begun', kept⟩ := (fold_reached folds).kept
  obtain rfl : s = first := Option.some.inj (begun.symm.trans begun')
  rw [← only]
  refine exhausts.refused _ folds ev offers action plain ?_ absent _ folds'
  rw [kept.cutoff]
  exact since

/-- The run over everything offered ends in the group that the part folds to. -/
private theorem Exhausts.run (exhausts : Exhausts group offered held) (ids : (offered.map Event.id).Nodup)
    (begun : start group held = some s) : ∃ t, fold group held = some t ∧
      SameGroup (runDates attempt Event.createdAt dates s (live group offered s.cutoff)) t := by
  have own : ((offered.filter (isAction group)).map Event.id).Nodup := ids.sublist (List.filter_sublist.map _)
  refine ⟨_, fold_part increasing covers exhausts.subset begun, ?_⟩
  have part : live group held s.cutoff = without (missing held) (live group offered s.cutoff) := by
    rw [live, live, without, List.filter_filter]
    refine sorted_congr exhausts.distinct own fun ev action => ?_
    simp only [missing, decide_not, Bool.not_not, Bool.and_eq_true, decide_eq_true_eq]
    constructor
    · rintro ⟨here, kept⟩
      exact ⟨exhausts.subset ev here action, here, kept⟩
    · rintro ⟨_, here, kept⟩
      exact ⟨here, kept⟩
  have distinct : (live group offered s.cutoff).Nodup := by
    refine List.Nodup.filter _ ((sortActions_perm _).nodup_iff.mpr ?_)
    rw [scan_actions]
    exact nodup_acts own
  have marks (t : GroupState) (ev : Event) : (t.attempt ev).2 = true → Applied (t.attempt ev).1 ev := applied_of_accepted
  have keeps (t : GroupState) (ev other : Event) : Applied t ev → Applied (t.attempt other).1 ev := applied_attempt
  rw [part]
  refine runDates_extras sameGroup_equivalence (fun _ _ ev same => same.attempt ev) (fun _ _ => sameGroup_refused)
    marks keeps distinct (sameGroup_equivalence.refl s) fun ev member absent => ?_
  exact ⟨s, sameGroup_equivalence.refl s, exhausts.spurned increasing covers ids begun member (of_decide_eq_true absent)⟩

end Run

/-- `ev` is an invite that `join` may come in by. -/
def Admits (ev join : Event) : Prop :=
  ∃ g code, parseAction join = some (g, .join (some code)) ∧ Opens ev code join.createdAt

/-- Two parts of what is offered that leave nothing out which would be applied, and that start from the same
snapshot with the same of the invites that joins may come in by, fold to the same group. -/
theorem Exhausts.core_eq (first : Exhausts group offered held) (second : Exhausts group offered others)
    (ids : (offered.map Event.id).Nodup)
    (pieces : ∀ kind : Kind, (scan group held).pieces[kind]? = (scan group others).pieces[kind]?)
    (signed : ∀ w, winners group held = some w → ∀ p, w.namedOwner = some p →
      (p ∈ (scan group held).creators ↔ p ∈ (scan group others).creators))
    (invites : ∀ ev, isAction group ev = true → ∀ join ∈ offered, Admits ev join → (ev ∈ held ↔ ev ∈ others)) :
    (fold group held).map core = (fold group others).map core := by
  have starts := start_congr pieces signed
  cases begun : start group held with
  | none =>
    rw [begun] at starts
    simp [fold, starts, begun]
  | some s =>
    rw [begun, Option.map_some] at starts
    obtain ⟨dates, increasing, covers⟩ := exists_dates offered
    obtain ⟨t, folds, near⟩ := first.run increasing covers ids begun
    obtain ⟨t', folds', near'⟩ := second.run increasing covers ids starts
    have doors : SameDoors (sortActions (scan group held).actions) (sortActions (scan group others).actions)
        (live group offered s.cutoff) := by
      intro join member g code read ev opens
      rw [mem_sortActions, mem_sortActions, scan_actions, scan_actions, List.mem_filter, List.mem_filter]
      exact and_congr_left fun action => invites ev action join (mem_live.mp member).1 ⟨g, code, read, opens⟩
    have alike : Alike (sortActions (scan group held).actions) (sortActions (scan group others).actions) [] s
        { s with invites := recorded group others } := ⟨rfl, start_invites begun, rfl, by simp⟩
    have ends := (alike.runDates doors dates).core
    rw [folds, folds', Option.map_some, Option.map_some, ← near.1, ← near'.1, ends]

end HitEnter.Group.GroupState
