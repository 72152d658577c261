import HitEnter.Group.Invariant

/-! The order of ranks under the actions of people who are not the owner: they
reach only those below them, lift nobody to their own rank, and do nothing to
the owner. -/

namespace HitEnter.Group.GroupState

open Wire

variable {s next : GroupState} {actor p : PublicKey} {action : Action}

theorem rank_member {held : BTreeSet String} (found : s.members[p]? = some held) :
    s.rank p = s.rankOf held := by
  simp [rank, found]

theorem rank_stranger (absent : s.members[p]? = none) : s.rank p = Rank.floor := by
  simp [rank, absent]

theorem SameRules.rankOf (same : SameRules s next) (held : BTreeSet String) :
    next.rankOf held = s.rankOf held := by
  unfold GroupState.rankOf
  rw [same.roles]

/-- Someone below the actor, for an actor who is not the owner. -/
theorem rank_lt_of_outranks (other : some actor ≠ s.owner) (above : s.outranks actor p = true) :
    s.rank p < s.rank actor := (outranks_iff.mp above).2.resolve_left other

theorem rank_lt_of_outranksRole {role : RoleDef} (other : some actor ≠ s.owner)
    (above : s.outranksRole actor role = true) : Rank.mk role.position < s.rank actor :=
  (outranksRole_iff.mp above).resolve_left other

private theorem put_rank {wanted : BTreeSet String} (other : some actor ≠ s.owner)
    (checks : PutChecks s actor p wanted) :
    s.rankOf wanted < s.rank actor ∨ s.rankOf wanted ≤ s.rank p := by
  rcases rankOf_cases s wanted with floor | ⟨r, want, role, found, top⟩
  · exact .inr (floor ▸ Rank.floor_le _)
  · rw [top]
    by_cases old : r ∈ (s.members[p]?).getD ∅
    · cases here : s.members[p]? with
      | none => simp [here] at old
      | some held =>
        rw [rank_member here]
        exact .inr (le_rankOf (by simpa [here] using old) found)
    · obtain ⟨role', found', above, _⟩ := checks.added r want old
      obtain rfl : role = role' := Option.some.inj (found.symm.trans found')
      exact .inl (rank_lt_of_outranksRole other above)

private theorem Moved.rank_bound (other : some actor ≠ s.owner) (moved : Moved s actor action next)
    (p : PublicKey) : next.rank p < s.rank actor ∨ next.rank p ≤ s.rank p := by
  cases moved.standing p with
  | same kept =>
    refine .inr (le_of_eq ?_)
    simp only [rank, kept]
    cases s.members[p]? with
    | none => rfl
    | some held => exact moved.rules.rankOf held
  | gone absent => exact .inr (rank_stranger absent ▸ Rank.floor_le _)
  | joined _ _ plain =>
    rw [rank_member plain, moved.rules.rankOf]
    rcases rankOf_cases s ∅ with floor | ⟨r, none, _⟩
    · exact .inr (floor ▸ Rank.floor_le _)
    · simp at none
  | put _ checks given =>
    rw [rank_member given, moved.rules.rankOf]
    exact put_rank other checks

private theorem Batch.rank_bound (other : some actor ≠ s.owner) (changed : Batch s actor next)
    (p : PublicKey) : next.rank p < s.rank actor ∨ next.rank p ≤ s.rank p := by
  cases here : s.members[p]? with
  | none => exact .inr (rank_stranger (changed.stranger p here) ▸ Rank.floor_le _)
  | some held =>
    obtain ⟨kept, found, subset⟩ := changed.member p held here
    rw [rank_member found, rank_member here]
    rcases rankOf_cases next kept with floor | ⟨r, member, role, defined, top⟩
    · exact .inr (floor ▸ Rank.floor_le _)
    · rw [top]
      rcases changed.roles r role defined with old | ⟨_, given⟩
      · exact .inr (le_rankOf (subset r member) old)
      · have apart : role.id ≠ defaultRole := fun plain => other (given.ownDefault plain)
        exact .inl (rank_lt_of_outranksRole other (given.above apart))

/-- `p` is removed, banned or muted by `ev`: by what it says, or by what it changed. -/
inductive Struck [Nostr] (s next : GroupState) (ev : Event) (p : PublicKey) : Prop where
  | removal (read : parseAction ev = some (group, .remove p ban))
  | mute (read : parseAction ev = some (group, .mute p until_))
  | removed (before : s.isMember p = true) (after : next.isMember p = false)
  | banned (before : p ∉ s.bans) (after : p ∈ next.bans)
  | muted (before : s.mutes[p]? ≠ some u) (after : next.mutes[p]? = some u)

private theorem Struck.below [Nostr] {ev : Event} (other : some ev.pubkey ≠ s.owner)
    (ok : s.apply ev = (next, .ok ())) (apart : p ≠ ev.pubkey) (struck : Struck s next ev p) :
    s.rank p < s.rank ev.pubkey := by
  obtain ⟨group, action, read, done⟩ := apply_ok ok
  refine rank_lt_of_outranks other ?_
  cases struck with
  | removal read' =>
    obtain rfl : action = _ := (Prod.mk.inj (Option.some.inj (read.symm.trans read'))).2
    obtain ⟨_, check, _⟩ := checked_ok.mp done
    exact (checkRemove_ok check).2.2
  | mute read' =>
    obtain rfl : action = _ := (Prod.mk.inj (Option.some.inj (read.symm.trans read'))).2
    exact (checkMute_ok (applyMute_cases done).1).2.2
  | removed before after =>
    rcases act_ok done with moved | ⟨_, _, _, ran⟩
    · cases moved.standing p with
      | same kept =>
        obtain ⟨held, found⟩ := isMember_iff.mp before
        rw [← kept] at found
        simp [isMember_iff.mpr ⟨held, found⟩] at after
      | gone _ _ below => exact below.resolve_left apart
      | joined _ _ plain => simp [isMember_iff.mpr ⟨_, plain⟩] at after
      | put _ _ given => simp [isMember_iff.mpr ⟨_, given⟩] at after
    · obtain ⟨held, found⟩ := isMember_iff.mp before
      obtain ⟨kept, found', _⟩ := (edits_ok ran).member p held found
      simp [isMember_iff.mpr ⟨kept, found'⟩] at after
  | banned before after =>
    rcases act_ok done with moved | ⟨_, _, _, ran⟩
    · exact ((moved.banned p after).resolve_left before).1
    · exact absurd ((edits_ok ran).bans ▸ after) before
  | muted before after =>
    rcases act_ok done with moved | ⟨_, _, _, ran⟩
    · exact ((moved.muted p _ after).1.resolve_left before).2
    · exact absurd ((edits_ok ran).mutes ▸ after) before

/-- What an action leaves of the owner: the same person, a member, with no ban, mute
or span they did not have. -/
structure OwnerKept (s next : GroupState) : Prop where
  owner : next.owner = s.owner
  member : ∀ o, s.owner = some o → next.isMember o = true
  banned : ∀ o, s.owner = some o → o ∈ next.bans → o ∈ s.bans
  muted : ∀ o u, s.owner = some o → next.mutes[o]? = some u → s.mutes[o]? = some u
  spans : ∀ o, s.owner = some o → next.spansOf o = s.spansOf o

private theorem owner_not_outranked (own : s.owner = some p) : s.outranks actor p = false := by
  refine Bool.eq_false_iff.mpr fun above => (outranks_iff.mp above).1 own.symm

private theorem Moved.ownerKept (sound : Sound s) (other : some actor ≠ s.owner)
    (moved : Moved s actor action next) : OwnerKept s next where
  owner := moved.rules.owner
  member o own := (sound.moved moved).owner o (moved.rules.owner.trans own)
  banned o own member := by
    rcases moved.banned o member with old | ⟨above, _⟩
    · exact old
    · simp [owner_not_outranked own] at above
  muted o u own found := by
    rcases (moved.muted o u found).1 with old | ⟨_, above⟩
    · exact old
    · simp [owner_not_outranked own] at above
  spans o own := moved.spans o own.symm fun same => other (same ▸ own.symm)

private theorem Batch.ownerKept (sound : Sound s) (changed : Batch s actor next) : OwnerKept s next where
  owner := changed.owner
  member o own := (sound.batch changed).owner o (changed.owner.trans own)
  banned o _ member := changed.bans ▸ member
  muted o u _ found := changed.mutes ▸ found
  spans o _ := by rw [spansOf, spansOf, changed.silences]

/-- Under an action of someone who is not the owner, the owner stays as they were,
whoever else is struck was below its author, and nobody rises to its author's rank. -/
theorem hierarchy_kept [Nostr] {group : PublicKey} {events : List Event} {ev : Event}
    (reached : Reached group events s) (other : some ev.pubkey ≠ s.owner)
    (ok : s.apply ev = (next, .ok ())) :
    OwnerKept s next ∧
      (∀ p, p ≠ ev.pubkey → Struck s next ev p → s.rank p < s.rank ev.pubkey) ∧
        ∀ p, next.rank p < s.rank ev.pubkey ∨ next.rank p ≤ s.rank p := by
  have sound := Reached.sound reached
  refine ⟨?_, fun p apart struck => struck.below other ok apart, fun p => ?_⟩
  all_goals obtain ⟨_, _, _, done⟩ := apply_ok ok
  all_goals rcases act_ok done with moved | ⟨_, _, _, ran⟩
  · exact moved.ownerKept sound other
  · exact (edits_ok ran).ownerKept sound
  · exact moved.rank_bound other p
  · exact (edits_ok ran).rank_bound other p

/-- A snapshot that bans and mutes its own owner. -/
def selfBanEvents : List Event :=
  Snapshot.sign
      { firstSnapshot founder "club" false with
        members := .ofList [(founder, ∅), (guest, ∅)]
        bans := .ofList [founder]
        mutes := .ofList [(founder, (900 : Timestamp))] } club 100 ++
    [(Draft.createGroup club).sign founder 100]

def guestLeaves : Event := (Draft.leave club).sign guest 110

private theorem selfBan_checked : ((start club selfBanEvents).any fun s =>
    decide (some guestLeaves.pubkey ≠ s.owner) && decide ((s.apply guestLeaves).2 = .ok ()) &&
      decide (s.owner = some founder) && (s.apply guestLeaves).1.isBanned founder &&
        ((s.apply guestLeaves).1.mutedUntil founder 110).isSome) = true := by
  decide +kernel

theorem hierarchy_kept_guestLeaves : ∃ s next, Reached club selfBanEvents s ∧
    some guestLeaves.pubkey ≠ s.owner ∧ s.apply guestLeaves = (next, .ok ()) ∧
      (OwnerKept s next ∧
        (∀ p, p ≠ guestLeaves.pubkey → Struck s next guestLeaves p → s.rank p < s.rank guestLeaves.pubkey) ∧
          ∀ p, next.rank p < s.rank guestLeaves.pubkey ∨ next.rank p ≤ s.rank p) := by
  obtain ⟨s, reached, facts⟩ := reached_of_start selfBan_checked
  simp only [Bool.and_eq_true, decide_eq_true_eq] at facts
  have accepted := apply_eq_of_ok facts.1.1.1.2
  exact ⟨s, _, reached, facts.1.1.1.1, accepted, hierarchy_kept reached facts.1.1.1.1 accepted⟩

/-- After it the owner is still banned and muted: an action does not undo a snapshot. -/
theorem guestLeaves_owner_banned : ∃ s next, Reached club selfBanEvents s ∧
    some guestLeaves.pubkey ≠ s.owner ∧ s.apply guestLeaves = (next, .ok ()) ∧
      s.owner = some founder ∧ next.isBanned founder = true ∧ (next.mutedUntil founder 110).isSome = true := by
  obtain ⟨s, reached, facts⟩ := reached_of_start selfBan_checked
  simp only [Bool.and_eq_true, decide_eq_true_eq] at facts
  exact ⟨s, _, reached, facts.1.1.1.1, apply_eq_of_ok facts.1.1.1.2, facts.1.1.2, facts.1.2, facts.2⟩

end HitEnter.Group.GroupState
