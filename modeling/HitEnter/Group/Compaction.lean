import HitEnter.Group.Restart
import HitEnter.Wire.Message

/-! Compaction is invisible. A snapshot of a folded group, signed after its last
action, starts the fold over from the same group, and whatever comes later is
judged as if the history were still there; what the snapshot has folded can go. -/

namespace HitEnter.Group.GroupState

open Wire Lib.Rounds

variable [Nostr] {group : PublicKey} {events later : List Event} {s : GroupState} {date : Timestamp}

/-- The same group, and the same of `later` applied. -/
def Agrees (later : List Event) (s t : GroupState) : Prop :=
  s.core = t.core ∧ ∀ ev ∈ later, ev.id ∈ s.applied ↔ ev.id ∈ t.applied

/-! ### Splitting a run at a date -/

omit [Nostr] in
/-- The seconds of some events, those before `date` and those from it on. -/
private theorem exists_split (events : List Event) (date : Timestamp) :
    ∃ before after : List Timestamp, (before ++ after).Pairwise (· < ·) ∧
      (∀ d ∈ before, d < date) ∧ (∀ d ∈ after, date ≤ d) ∧
      ∀ ev ∈ events, ev.createdAt ∈ before ++ after := by
  obtain ⟨dates, increasing, covers⟩ := exists_dates events
  refine ⟨dates.filter (· < date), dates.filter (date ≤ ·), ?_, ?_, ?_, ?_⟩
  · refine List.pairwise_append.mpr ⟨increasing.filter _, increasing.filter _, ?_⟩
    intro d first e second
    simp only [List.mem_filter, decide_eq_true_eq] at first second
    exact first.2.trans_le second.2
  · intro d member
    simpa using (List.mem_filter.mp member).2
  · intro d member
    simpa using (List.mem_filter.mp member).2
  · intro ev member
    rcases lt_or_ge ev.createdAt date with early | late
    · exact List.mem_append_left _ (List.mem_filter.mpr ⟨covers ev member, by simpa using early⟩)
    · exact List.mem_append_right _ (List.mem_filter.mpr ⟨covers ev member, by simpa using late⟩)

private theorem fold_split {before after : List Timestamp} (increasing : (before ++ after).Pairwise (· < ·))
    (covers : ∀ ev ∈ events, ev.createdAt ∈ before ++ after) (found : start group events = some s) :
    fold group events = some (runDates attempt Event.createdAt after
      (runDates attempt Event.createdAt before s (live group events s.cutoff))
      (live group events s.cutoff)) := by
  rw [fold_eq_runDates increasing fun _ _ ev member => covers ev (mem_live.mp member).1, found,
    Option.map_some, runDates_append]

/-! ### Where the folds start -/

/-- The actions that a fold of `events` reads, in order. -/
private def acts (group : PublicKey) (events : List Event) : List Event :=
  sortActions (scan group events).actions

private theorem mem_acts {ev : Event} : ev ∈ acts group events ↔ ev ∈ events ∧ isAction group ev = true := by
  simp [acts, mem_sortActions, scan_actions]

private theorem start_of_winners {w : Winners} (won : winners group events = some w) :
    start group events = some { w.state group (scan group events).creators with
      invites := (acts group events).foldl recordInvite ∅ } := by
  rw [start, snapshotState_eq, won]
  rfl

/-- Further actions change the start only by the invites among them. -/
private theorem start_append (actions : ∀ ev ∈ later, actionKinds.contains ev.kind = true)
    (begun : start group events = some s) : start group (events ++ later) =
      some { s with invites := (acts group (events ++ later)).foldl recordInvite ∅ } := by
  have pieces : ∀ kind : Kind, (scan group (events ++ later)).pieces[kind]? =
      (scan group events).pieces[kind]? := by
    intro kind
    have none : later.filter (isPiece group kind) = [] :=
      List.filter_eq_nil_iff.mpr fun ev member => by simp [not_piece (actions ev member)]
    simp only [scan_pieces, List.filter_append, none, List.append_nil]
  have creators : ∀ p, p ∈ (scan group (events ++ later)).creators ↔ p ∈ (scan group events).creators := by
    intro p
    have none : ∀ ev ∈ later, isCreator group ev = false := fun ev member => not_creator (actions ev member)
    simp only [mem_scan_creators, List.mem_append, or_and_right, exists_or, or_iff_left_iff_imp]
    rintro ⟨ev, member, creator, _⟩
    simp [none ev member] at creator
  have same := snapshotState_congr pieces creators
  simp only [start, Option.bind_eq_bind, Option.bind_eq_some_iff, Option.pure_def, Option.some.injEq] at begun
  obtain ⟨snapshot, read, rfl⟩ := begun
  simp only [start, same, read, Option.bind_eq_bind, Option.bind_some, Option.pure_def]
  rfl

/-! ### The history up to the snapshot -/

section Later
variable {before after : List Timestamp}
  (folds : fold group events = some s)
  (quiet : ∀ ev ∈ live group events s.cutoff, ev.createdAt < date)
  (distinct : ((events ++ later).map Event.id).Nodup)
  (actions : ∀ ev ∈ later, actionKinds.contains ev.kind = true)
  (since : ∀ ev ∈ later, date ≤ ev.createdAt)
  (increasing : (before ++ after).Pairwise (· < ·))
  (early : ∀ d ∈ before, d < date) (late : ∀ d ∈ after, date ≤ d)
  (covers : ∀ ev ∈ events ++ later, ev.createdAt ∈ before ++ after)

include folds quiet increasing late covers in
/-- The fold is over once the seconds before the snapshot are. -/
private theorem fold_eq_before : ∃ first, start group events = some first ∧ first.cutoff = s.cutoff ∧
    s = runDates attempt Event.createdAt before first (live group events s.cutoff) := by
  obtain ⟨first, begun, kept⟩ := (fold_reached folds).kept
  have cutoffs : s.cutoff = first.cutoff := kept.cutoff
  have run := fold_split increasing (fun ev member => covers ev (List.mem_append_left _ member)) begun
  rw [folds, Option.some.injEq, ← cutoffs] at run
  refine ⟨first, begun, cutoffs.symm, ?_⟩
  have idle : ∀ ev ∈ live group events s.cutoff, ev.createdAt ∉ after :=
    fun ev member due => absurd (quiet ev member) (not_lt.mpr (late _ due))
  rw [runDates_idle idle] at run
  exact run

include folds quiet distinct actions since increasing early late covers in
/-- With further actions the fold first goes through the same group. -/
private theorem fold_append : ∃ middle,
    fold group (events ++ later) = some (runDates attempt Event.createdAt after middle
      (live group (events ++ later) s.cutoff)) ∧
    Alike (acts group (events ++ later)) (acts group events) later middle s := by
  obtain ⟨first, begun, cutoffs, ended⟩ := fold_eq_before folds quiet increasing late covers
  let first' : GroupState := { first with invites := (acts group (events ++ later)).foldl recordInvite ∅ }
  refine ⟨runDates attempt Event.createdAt before first' (live group (events ++ later) s.cutoff), ?_, ?_⟩
  · rw [← cutoffs]
    exact fold_split increasing covers (start_append actions begun)
  have actionIds : ∀ events : List Event, (events.map Event.id).Nodup →
      ((events.filter (isAction group)).map Event.id).Nodup :=
    fun events distinct => distinct.sublist ((List.filter_sublist).map _)
  have own : ((events.filter (isAction group)).map Event.id).Nodup := by
    refine actionIds events ?_
    rw [List.map_append] at distinct
    exact (List.nodup_append.mp distinct).1
  -- before `date` there is nothing further to apply, and no further invite to join by
  have same : ∀ d ∈ before, ((live group (events ++ later) s.cutoff).filter fun ev => ev.createdAt = d) =
      (live group events s.cutoff).filter fun ev => ev.createdAt = d := by
    intro d member
    refine live_filter_congr (actionIds _ distinct) own fun ev _ _ due => ?_
    have absent : ev ∉ later := fun here => absurd (early d member) (not_lt.mpr (due ▸ since ev here))
    simp [absent]
  have doors : SameDoors (acts group (events ++ later)) (acts group events) (live group events s.cutoff) := by
    rintro join member g code _ ev ⟨invite, found, started, _⟩
    have absent : ev ∉ later := by
      intro here
      have dated : invite.createdAt = ev.createdAt := (inviteOf_some found).2.2.1
      exact absurd ((since ev here).trans (dated ▸ started)) (not_le.mpr (quiet join member))
    simp [mem_acts, absent]
  have begunAlike : Alike (acts group (events ++ later)) (acts group events) later first' first :=
    ⟨rfl, rfl, start_invites begun, fun _ _ => Iff.rfl⟩
  have alike := begunAlike.runDates doors before
  rw [← ended, ← runDates_congr same] at alike
  exact alike

end Later

/-! ### The snapshot in place of the history -/

/-- Of no use once a snapshot dated `date` is there: an action before it, or an invite
that admits nobody from then on. -/
def Spent (date : Timestamp) (ev : Event) : Prop :=
  actionKinds.contains ev.kind = true ∧ (ev.kind ≠ createInvite → ev.createdAt < date) ∧
    ∀ code d, date ≤ d → ¬ Opens ev code d

theorem spent_of_isFolded {ev : Event} {now : Timestamp} (folded : s.isFolded ev now = true) :
    Spent s.cutoff ev := by
  unfold isFolded at folded
  split at folded
  · rename_i invite
    refine ⟨by rw [invite]; decide, fun other => absurd invite other, ?_⟩
    rintro code d later ⟨entry, found, _, running⟩
    obtain ⟨_, _, _, g, read⟩ := inviteOf_some found
    rw [read] at folded
    cases expires : entry.expires with
    | none => simp [expires] at folded
    | some e =>
      simp only [expires, Bool.and_eq_true, decide_eq_true_eq] at folded
      simp only [expires, Option.all_some, decide_eq_true_eq] at running
      exact absurd (later.trans running) (not_le.mpr folded.2)
  · rename_i other
    simp only [Bool.and_eq_true, decide_eq_true_eq] at folded
    refine ⟨folded.1, fun _ => folded.2, ?_⟩
    rintro code d _ ⟨_, found, _⟩
    exact other (inviteOf_some found).1

section Restart
variable {rest : List Event}
  (folds : fold group events = some s)
  (room : s.seq.toNat + 1 < 2 ^ 64)
  (quiet : ∀ ev ∈ live group events s.cutoff, ev.createdAt < date)
  (cutoff : s.cutoff ≤ date)
  (distinct : ((events ++ later).map Event.id).Nodup)
  (actions : ∀ ev ∈ later, actionKinds.contains ev.kind = true)
  (since : ∀ ev ∈ later, date ≤ ev.createdAt)
  (part : rest.Sublist events)
  (gone : ∀ ev ∈ events, ev ∈ rest ∨ Spent date ev)

include folds room distinct actions part gone in
/-- Where the fold starts with the snapshot: at the group it was taken of. -/
private theorem start_snapshot : ∃ first,
    start group (rest ++ s.toSnapshot.sign group date ++ later) = some first ∧ first.core = s.core ∧
      first.cutoff = date ∧ first.applied = ∅ := by
  obtain ⟨old, begun, kept⟩ := (fold_reached folds).kept
  obtain ⟨w, invites, won, rfl⟩ := start_winners begun
  have ids : ∀ a ∈ events, ∀ b ∈ events, a.id = b.id → a = b := by
    rw [List.map_append] at distinct
    exact ids_injective (List.nodup_append.mp distinct).1
  have sound := Reached.sound (fold_reached folds)
  have plain := Reached.plainOwner (fold_reached folds)
  have won' : winners group (rest ++ s.toSnapshot.sign group date ++ later) = some (s.restart date) := by
    refine winners_restart sound room (fun ev member => by simp [member]) fun ev member kind piece => ?_
    simp only [List.mem_append] at member
    rcases member with (old | new) | further
    · right
      obtain ⟨seq, found, most⟩ := seq_le_winners ids won (part.subset old) piece
      exact ⟨seq, found, by rw [kept.seq]; exact most⟩
    · exact .inl new
    · simp [not_piece (actions ev further)] at piece
  have signed : ∀ o, s.owner = some o →
      o ∈ (scan group (rest ++ s.toSnapshot.sign group date ++ later)).creators := by
    intro o own
    rw [kept.owner] at own
    have creator : o ∈ (scan group events).creators := by
      simpa using (Option.filter_eq_some_iff.mp own).2
    obtain ⟨ev, member, creates, same⟩ := mem_scan_creators.mp creator
    refine mem_scan_creators.mpr ⟨ev, ?_, creates, same⟩
    rcases gone ev member with stays | ⟨action, _⟩
    · simp [stays]
    · simp [not_creator action] at creates
  exact ⟨_, start_of_winners won', restart_core sound plain group date signed, rfl, rfl⟩

include quiet cutoff distinct part in
/-- From `date` on only the further actions are live, with the history or without. -/
private theorem live_snapshot {d : Timestamp} (late : date ≤ d) :
    ((live group (events ++ later) s.cutoff).filter fun ev => ev.createdAt = d) =
      (live group (rest ++ s.toSnapshot.sign group date ++ later) date).filter fun ev => ev.createdAt = d := by
  refine live_filter_congr (distinct.sublist (List.filter_sublist.map _)) ?_ fun ev action kind due => ?_
  · have none : (s.toSnapshot.sign group date).filter (isAction group) = [] :=
      List.filter_eq_nil_iff.mpr fun ev member => by simp [sign_not_action member]
    rw [List.filter_append, List.filter_append, none, List.append_nil, ← List.filter_append]
    exact distinct.sublist ((List.filter_sublist.trans (part.append_right later)).map _)
  · have notOld : ev ∉ events := fun old => by
      have isLive := mem_live.mpr ⟨old, action, kind, due ▸ cutoff.trans late⟩
      exact absurd (quiet ev isLive) (not_lt.mpr (due ▸ late))
    have notRest : ev ∉ rest := fun old => notOld (part.subset old)
    have notSigned : ev ∉ s.toSnapshot.sign group date := fun new => by simp [sign_not_action new] at action
    simp [notOld, notRest, notSigned, late, cutoff.trans late]

include part gone in
/-- Whoever joins from `date` on finds the doors of the history. -/
private theorem doors_snapshot :
    SameDoors (acts group (events ++ later)) (acts group (rest ++ s.toSnapshot.sign group date ++ later))
      (live group (rest ++ s.toSnapshot.sign group date ++ later) date) := by
  intro join member g code _ ev opens
  simp only [mem_acts, List.mem_append]
  constructor
  · rintro ⟨old | further, action⟩
    · rcases gone ev old with stays | spent
      · exact ⟨.inl (.inl stays), action⟩
      · exact absurd opens (spent.2.2 code _ (mem_live.mp member).2.2.2)
    · exact ⟨.inr further, action⟩
  · rintro ⟨(stays | new) | further, action⟩
    · exact ⟨.inl (part.subset stays), action⟩
    · simp [sign_not_action new] at action
    · exact ⟨.inr further, action⟩

include folds distinct in
private theorem later_not_applied {ev : Event} (further : ev ∈ later) : ev.id ∉ s.applied := by
  intro applied
  obtain ⟨old, member, same⟩ := Reached.applied (fold_reached folds) applied
  rw [List.map_append] at distinct
  refine (List.nodup_append.mp distinct).2.2 old.id ?_ ev.id (List.mem_map_of_mem further) same
  exact List.mem_map_of_mem (mem_live.mp member).1

include folds room quiet cutoff distinct actions since part gone in
/-- The snapshot and what is left of the history agree with the history. -/
private theorem fold_snapshot : ∃ whole compacted, fold group (events ++ later) = some whole ∧
    fold group (rest ++ s.toSnapshot.sign group date ++ later) = some compacted ∧
      Agrees later whole compacted ∧ compacted.cutoff = date := by
  let held := rest ++ s.toSnapshot.sign group date ++ later
  obtain ⟨before, after, increasing, early, late, covers⟩ :=
    exists_split (events ++ s.toSnapshot.sign group date ++ later) date
  have coversWhole : ∀ ev ∈ events ++ later, ev.createdAt ∈ before ++ after := fun ev member =>
    covers ev (by rcases List.mem_append.mp member with old | further <;> simp [*])
  have coversHeld : ∀ ev ∈ held, ev.createdAt ∈ before ++ after := by
    intro ev member
    refine covers ev ?_
    simp only [held, List.mem_append] at member ⊢
    exact member.imp_left (·.imp_left fun old => part.subset old)
  obtain ⟨middle, whole, alike⟩ :=
    fold_append folds quiet distinct actions since increasing early late coversWhole
  obtain ⟨first, begun, core, cutoff', applied⟩ := start_snapshot folds room distinct actions part gone
  have run := fold_split increasing coversHeld begun
  rw [cutoff'] at run
  have idle : ∀ ev ∈ live group held date, ev.createdAt ∉ before :=
    fun ev member due => absurd (early _ due) (not_lt.mpr (mem_live.mp member).2.2.2)
  rw [runDates_idle idle] at run
  have restarted : Alike (acts group (events ++ later)) (acts group held) later middle first := by
    refine ⟨alike.core.trans core.symm, alike.here, start_invites begun, fun ev further => ?_⟩
    rw [alike.applied ev further, applied]
    simp [later_not_applied folds distinct further]
  have ended := restarted.runDates (doors_snapshot part gone) after
  rw [← runDates_congr fun d member => live_snapshot quiet cutoff distinct part (late d member)] at ended
  refine ⟨_, _, whole, run, ⟨ended.core, ended.applied⟩, ?_⟩
  obtain ⟨first', begun', kept⟩ := (fold_reached run).kept
  obtain rfl := Option.some.inj (begun.symm.trans begun')
  exact kept.cutoff.trans cutoff'

end Restart

/-- Compaction changes nothing that later actions could tell: with the snapshot, and
also once what it has folded is dropped, the group and what is applied of the later
actions are as they would be without it. -/
theorem compaction_invisible (folds : fold group events = some s) (room : s.seq.toNat + 1 < 2 ^ 64)
    (quiet : ∀ ev ∈ live group events s.cutoff, ev.createdAt < date) (cutoff : s.cutoff ≤ date)
    (distinct : ((events ++ later).map Event.id).Nodup)
    (actions : ∀ ev ∈ later, actionKinds.contains ev.kind = true)
    (since : ∀ ev ∈ later, date ≤ ev.createdAt) :
    ∃ whole, fold group (events ++ later) = some whole ∧
      (∃ compacted, fold group (events ++ s.toSnapshot.sign group date ++ later) = some compacted ∧
        Agrees later whole compacted) ∧
      ∃ fresh, fold group (events ++ s.toSnapshot.sign group date) = some fresh ∧ ∀ now, ∃ trimmed,
        fold group (events.filter (fun ev => !fresh.isFolded ev now) ++ s.toSnapshot.sign group date ++ later) =
          some trimmed ∧ Agrees later whole trimmed := by
  obtain ⟨whole, compacted, ofWhole, ofCompacted, agrees, _⟩ :=
    fold_snapshot folds room quiet cutoff distinct actions since (List.Sublist.refl events) fun ev member => .inl member
  have own : ((events ++ []).map Event.id).Nodup := by
    rw [List.map_append] at distinct
    simpa using (List.nodup_append.mp distinct).1
  obtain ⟨_, fresh, _, ofFresh, _, dated⟩ :=
    fold_snapshot folds room quiet cutoff own (by simp) (by simp) (List.Sublist.refl events)
      fun ev member => .inl member
  refine ⟨whole, ofWhole, ⟨compacted, ofCompacted, agrees⟩, fresh, by simpa using ofFresh, fun now => ?_⟩
  have gone : ∀ ev ∈ events, ev ∈ events.filter (fun ev => !fresh.isFolded ev now) ∨ Spent date ev := by
    intro ev member
    cases folded : fresh.isFolded ev now with
    | false => exact .inl (List.mem_filter.mpr ⟨member, by simp [folded]⟩)
    | true => exact .inr (dated ▸ spent_of_isFolded folded)
  obtain ⟨whole', trimmed, ofWhole', ofTrimmed, agrees', _⟩ :=
    fold_snapshot folds room quiet cutoff distinct actions since List.filter_sublist gone
  obtain rfl := Option.some.inj (ofWhole.symm.trans ofWhole')
  exact ⟨trimmed, ofTrimmed, agrees'⟩

end HitEnter.Group.GroupState

namespace HitEnter.Group

open Wire

/-- The guest leaves after the group was compacted. -/
theorem compaction_invisible_youngClub : ∃ s whole compacted,
    GroupState.fold club youngClub = some s ∧
      GroupState.fold club (youngClub ++ [(Draft.leave club).sign guest 210]) = some whole ∧
      GroupState.fold club (youngClub ++ s.toSnapshot.sign club 200 ++ [(Draft.leave club).sign guest 210]) =
        some compacted ∧
      GroupState.Agrees [(Draft.leave club).sign guest 210] whole compacted := by
  have checked : ((GroupState.fold club youngClub).any fun s => s.seq.toNat + 1 < 2 ^ 64 &&
      (GroupState.live club youngClub s.cutoff).all (fun ev => ev.createdAt < 200) && s.cutoff ≤ 200) = true := by
    decide +kernel
  obtain ⟨s, folds, passes⟩ := (Option.any_eq_true _ _).mp checked
  simp only [Bool.and_eq_true, decide_eq_true_eq, List.all_eq_true] at passes
  have distinct : ((youngClub ++ [(Draft.leave club).sign guest 210]).map Event.id).Nodup := by
    decide +kernel
  obtain ⟨whole, ofWhole, ⟨compacted, ofCompacted, agrees⟩, _⟩ :=
    GroupState.compaction_invisible folds passes.1.1 passes.1.2 passes.2 distinct (by decide) (by decide)
  exact ⟨s, whole, compacted, folds, ofWhole, ofCompacted, agrees⟩

end HitEnter.Group
