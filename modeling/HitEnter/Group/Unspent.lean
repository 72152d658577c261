import HitEnter.Group.Compaction
import HitEnter.Group.Leftover

/-! What a snapshot has spent: the actions before it and the invites that had run out by then may
be there or not, all of them or some, and the rest folds to the same group. -/

namespace HitEnter.Group.GroupState

open Wire Lib.Rounds Lib.KeepBest

variable [Nostr] {group : PublicKey} {events rest : List Event} {s : GroupState}

/-- What was left out is spent. -/
structure Rest (date : Timestamp) (events rest : List Event) : Prop where
  part : ∀ ev ∈ rest, ev ∈ events
  gone : ∀ ev ∈ events, ev ∈ rest ∨ Spent date ev

private theorem Rest.mem_iff {date : Timestamp} (left : Rest date events rest) {ev : Event}
    (regular : actionKinds.contains ev.kind = false) : ev ∈ rest ↔ ev ∈ events := by
  refine ⟨left.part ev, fun member => (left.gone ev member).resolve_right fun spent => ?_⟩
  have action := spent.1
  rw [regular] at action
  cases action

/-- The rest starts where the whole does. -/
private theorem Rest.start {date : Timestamp} (left : Rest date events rest)
    (ids : ∀ a ∈ events, ∀ b ∈ events, a.id = b.id → a = b) :
    start group rest = (start group events).map fun s => { s with invites := recorded group rest } := by
  apply start_congr
  · intro kind
    rw [scan_pieces, scan_pieces]
    apply best_congr (pieces_strictTotalOn ids kind)
    intro ev
    rw [List.mem_filter, List.mem_filter]
    refine and_congr_left fun piece => (left.mem_iff ?_).symm
    by_contra action
    rw [not_piece (Bool.not_eq_false _ ▸ action)] at piece
    cases piece
  · intro w _ p _
    rw [mem_scan_creators, mem_scan_creators]
    refine exists_congr fun ev => and_congr_left fun ⟨creates, _⟩ => (left.mem_iff ?_).symm
    by_contra action
    rw [not_creator (Bool.not_eq_false _ ▸ action)] at creates
    cases creates

/-- Of a group's events, what is spent may be there or not. -/
theorem Rest.core_eq (folds : fold group events = some s) (left : Rest s.cutoff events rest)
    (ids : ∀ a ∈ events, ∀ b ∈ events, a.id = b.id → a = b)
    (distinct : ((events.filter (isAction group)).map Event.id).Nodup)
    (distinct' : ((rest.filter (isAction group)).map Event.id).Nodup) : (fold group rest).map core = some s.core := by
  obtain ⟨first, begun, kept⟩ := (fold_reached folds).kept
  have starts : GroupState.start group rest = some { first with invites := recorded group rest } := by
    rw [left.start ids, begun]
    rfl
  obtain ⟨dates, increasing, covers⟩ := exists_dates events
  have whole : fold group events = _ := fold_eq_runDates increasing fun _ _ ev member => covers ev (mem_live.mp member).1
  have parts : fold group rest = _ := fold_eq_runDates increasing fun _ _ ev member => covers ev (left.part ev (mem_live.mp member).1)
  rw [begun, Option.map_some, folds, Option.some.injEq] at whole
  rw [starts, Option.map_some] at parts
  -- what is live is not spent
  have live_eq : ∀ d ∈ dates, ((live group rest first.cutoff).filter fun ev => ev.createdAt = d) =
      (live group events first.cutoff).filter fun ev => ev.createdAt = d := by
    intro d _
    apply live_filter_congr distinct' distinct
    intro ev _ plain due
    refine and_congr_left fun since => ⟨left.part ev, fun member => (left.gone ev member).resolve_right fun spent => ?_⟩
    exact absurd (spent.2.1 plain) (not_lt.mpr (due ▸ kept.cutoff ▸ since))
  have doors : SameDoors (sortActions (scan group rest).actions) (sortActions (scan group events).actions)
      (live group events first.cutoff) := by
    intro join member g code _ ev opens
    rw [mem_sortActions, mem_sortActions, scan_actions, scan_actions, List.mem_filter, List.mem_filter]
    refine and_congr_left fun _ => ⟨left.part ev, fun here => (left.gone ev here).resolve_right fun spent => ?_⟩
    exact spent.2.2 code _ (kept.cutoff ▸ (mem_live.mp member).2.2.2) opens
  have alike : Alike (sortActions (scan group rest).actions) (sortActions (scan group events).actions) []
      { first with invites := recorded group rest } first := ⟨rfl, rfl, start_invites begun, by simp⟩
  have ends := (alike.runDates doors dates).core
  rw [parts, Option.map_some, runDates_congr live_eq, ends, ← whole]

end HitEnter.Group.GroupState
