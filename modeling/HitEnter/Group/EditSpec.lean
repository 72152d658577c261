import HitEnter.Group.ApplySpec

/-! What an accepted batch of edits can have done. One edit is taken apart into
its checks and its write by `Edited`; what a whole batch keeps is `Batch`, an
invariant of the walk over its edits. -/

namespace HitEnter.Group.GroupState

open Wire Lib.Checks

variable {s before next after : GroupState} {actor target p : PublicKey} {date : Timestamp}
  {e : Edit} {batch : List Edit}

/-- The definition an edit gives a role, as far as its checks tell. -/
structure RoleGiven (before : GroupState) (actor : PublicKey) (role : RoleDef) : Prop where
  notMark : role.id ≠ ownerMark
  ownDefault : role.id = defaultRole → some actor = before.owner
  above : role.id ≠ defaultRole → before.outranksRole actor role = true
  oldAbove : role.id ≠ defaultRole → ∀ old, before.roles[role.id]? = some old →
    before.outranksRole actor old = true
  granted : ∀ i, (Permissions.mk role.perms).has i → (before.base actor).has i
  sane : ∀ i, (Permissions.mk role.perms).has i → Permissions.all.has i

/-- The override an edit writes, as far as its checks tell. -/
structure OverrideGiven (before : GroupState) (actor : PublicKey) (o : Override) : Prop where
  defined : ∃ role, before.roles[o.role]? = some role ∧ before.outranksRole actor role = true
  granted : ∀ i, (Permissions.mk o.allow).has i → (before.effective actor o.channel).has i

/-- What one accepted edit did to `next`, and what its checks had established. -/
inductive Edited (before : GroupState) (actor : PublicKey) (next : GroupState) : Edit → GroupState → Prop where
  | name : Edited before actor next (.name n) { next with name := text }
  | isPublic {flag : Bool} (own : some actor = before.owner) :
      Edited before actor next (.isPublic flag) { next with isPublic := flag }
  | newcomerWait : Edited before actor next (.newcomerWait secs) { next with newcomerWait := secs }
  | about : Edited before actor next (.about a) { next with about := text }
  | channel : Edited before actor next (.channel c) { next with channels := putChannel c next.channels }
  | channelDelete {id : String} (listed : next.channels.any (·.id == id) = true) :
      Edited before actor next (.channelDelete id) { next with
        channels := next.channels.filter (·.id != id)
        overrides := next.overrides.filter (·.channel != id) }
  | override (listed : next.channels.any (·.id == o.channel) = true)
      (given : OverrideGiven before actor (scopedOverride o)) :
      Edited before actor next (.override o) { next with
        overrides := putOverride (scopedOverride o) next.overrides }
  | role (given : RoleGiven before actor (sanitizedRole r)) :
      Edited before actor next (.role r) { next with roles := next.roles.insert r.id (sanitizedRole r) }
  | roleDelete {id : String} (other : id ≠ defaultRole)
      (defined : ∃ role, before.roles[id]? = some role ∧ before.outranksRole actor role = true) :
      Edited before actor next (.roleDelete id) { next with
        roles := next.roles.erase id
        members := next.members.map fun _ held => held.erase id
        overrides := next.overrides.filter (·.role != id) }

private theorem checkRolePlace_ok {r : RoleDef} (ok : before.checkRolePlace actor r = .ok done) :
    (r.id = defaultRole → some actor = before.owner) ∧
      (r.id ≠ defaultRole → before.outranksRole actor r = true) ∧
        (r.id ≠ defaultRole → ∀ old, before.roles[r.id]? = some old →
          before.outranksRole actor old = true) := by
  unfold checkRolePlace at ok
  split at ok
  · rename_i own
    simp only [bind_eq_ok, refuseIf_eq_ok] at ok
    obtain ⟨_, owner, _⟩ := ok
    exact ⟨fun _ => by simpa using owner, fun other => absurd own other, fun other => absurd own other⟩
  · rename_i other
    simp only [bind_eq_ok, refuseIf_eq_ok] at ok
    obtain ⟨_, _, _, old, above⟩ := ok
    refine ⟨fun own => absurd own other, fun _ => by simpa using above, fun _ role found => ?_⟩
    simpa [found] using old

theorem edit_ok (ok : next.edit before actor e = .ok after) : Edited before actor next e after := by
  cases e with
  | name n =>
    simp only [edit, bind_eq_ok, pure_eq_ok] at ok
    obtain ⟨_, _, _, _, rfl⟩ := ok
    exact .name
  | isPublic flag =>
    simp only [edit, bind_eq_ok, pure_eq_ok, refuseIf_eq_ok] at ok
    obtain ⟨_, own, rfl⟩ := ok
    exact .isPublic (by simpa using own)
  | newcomerWait secs =>
    simp only [edit, bind_eq_ok, pure_eq_ok] at ok
    obtain ⟨_, _, _, _, rfl⟩ := ok
    exact .newcomerWait
  | about a =>
    simp only [edit, bind_eq_ok, pure_eq_ok] at ok
    obtain ⟨_, _, _, _, rfl⟩ := ok
    exact .about
  | channel c =>
    simp only [edit, bind_eq_ok, pure_eq_ok] at ok
    obtain ⟨_, _, _, _, _, _, _, _, rfl⟩ := ok
    exact .channel
  | channelDelete id =>
    simp only [edit, bind_eq_ok, pure_eq_ok, refuseIf_eq_ok] at ok
    obtain ⟨_, _, _, listed, rfl⟩ := ok
    exact .channelDelete (by simpa using listed)
  | override o =>
    simp only [edit, bind_eq_ok, pure_eq_ok, refuseIf_eq_ok, orRefuse_eq_ok] at ok
    obtain ⟨_, _, _, listed, role, found, _, above, _, grant, rfl⟩ := ok
    simp only [Bool.not_eq_false'] at listed above grant
    exact .override listed ⟨⟨role, found, above⟩, Permissions.beyond_isEmpty_iff.mp grant⟩
  | role r =>
    simp only [edit, bind_eq_ok, pure_eq_ok, refuseIf_eq_ok] at ok
    obtain ⟨_, _, _, _, _, _, _, notMark, _, place, _, grant, rfl⟩ := ok
    simp only [Bool.not_eq_false'] at grant
    obtain ⟨ownDefault, above, oldAbove⟩ := checkRolePlace_ok place
    refine .role ⟨by simpa [sanitizedRole] using notMark, ownDefault, above, oldAbove, canGrant_iff.mp grant, ?_⟩
    exact fun i held => ((Permissions.has_sanitized _ i).mp held).2
  | roleDelete id =>
    simp only [edit, bind_eq_ok, pure_eq_ok, refuseIf_eq_ok, orRefuse_eq_ok] at ok
    obtain ⟨_, _, _, other, role, found, _, above, rfl⟩ := ok
    exact .roleDelete (by simpa using other) ⟨role, found, by simpa using above⟩

/-- A batch is walked edit by edit: what every accepted edit keeps, the batch keeps. -/
theorem edits_invariant (Inv : GroupState → Prop) (ok : s.edits actor batch = .ok after)
    (initial : Inv s)
    (keeps : ∀ next e after, e ∈ batch → Edited s actor next e after → Inv next → Inv after) :
    Inv after :=
  foldlM_invariant (fun next e member after ran => keeps next e after member (edit_ok ran)) ok initial

/-- The same, along with the edits already made. -/
theorem edits_history (Inv : List Edit → GroupState → Prop) (ok : s.edits actor batch = .ok after)
    (initial : Inv [] s)
    (carries : ∀ done next e after, Edited s actor next e after → Inv done next → Inv (done ++ [e]) after) :
    Inv batch after :=
  foldlM_history (fun done e _ _ next after ran => carries done next e after (edit_ok ran)) ok initial

/-- What an accepted batch leaves alone, and what bounds the rest. -/
structure Batch (before : GroupState) (actor : PublicKey) (next : GroupState) : Prop where
  owner : next.owner = before.owner
  bans : next.bans = before.bans
  mutes : next.mutes = before.mutes
  joined : next.joined = before.joined
  silences : next.silences = before.silences
  isPublic : some actor ≠ before.owner → next.isPublic = before.isPublic
  stranger : ∀ p : PublicKey, before.members[p]? = none → next.members[p]? = none
  member : ∀ (p : PublicKey) held, before.members[p]? = some held →
    ∃ kept, next.members[p]? = some kept ∧ ∀ r ∈ kept, r ∈ held
  held : ∀ (p : PublicKey) kept, next.members[p]? = some kept → ∀ r ∈ kept,
    r ∈ before.roles → r ∈ next.roles
  defaulted : defaultRole ∈ before.roles → defaultRole ∈ next.roles
  roles : ∀ (r : String) role, next.roles[r]? = some role →
    before.roles[r]? = some role ∨ role.id = r ∧ RoleGiven before actor role
  overrides : ∀ o ∈ next.overrides, o ∈ before.overrides ∨ OverrideGiven before actor o

theorem mem_putOverride {o new : Override} {overrides : List Override} (member : o ∈ putOverride new overrides) :
    o ∈ overrides ∨ o = new := by
  rcases List.mem_append.mp member with old | fresh
  · exact .inl (List.mem_filter.mp old).1
  · split at fresh
    · exact .inr (List.mem_singleton.mp fresh)
    · cases fresh

private theorem Batch.role {r : RoleDef} (so_far : Batch before actor next)
    (given : RoleGiven before actor (sanitizedRole r)) :
    Batch before actor { next with roles := next.roles.insert r.id (sanitizedRole r) } where
  __ := so_far
  held p kept found q member defined := by
    simp only [Std.ExtTreeMap.mem_insert]
    exact .inr (so_far.held p kept found q member defined)
  defaulted defined := by
    simp only [Std.ExtTreeMap.mem_insert]
    exact .inr (so_far.defaulted defined)
  roles q role found := by
    simp only [Std.ExtTreeMap.getElem?_insert, Std.LawfulEqCmp.compare_eq_iff_eq] at found
    split at found
    · cases found
      rename_i same
      exact .inr ⟨same, given⟩
    · exact so_far.roles q role found

private theorem Batch.roleDelete {id : String} (so_far : Batch before actor next) (other : id ≠ defaultRole) :
    Batch before actor { next with
      roles := next.roles.erase id
      members := next.members.map fun _ held => held.erase id
      overrides := next.overrides.filter (·.role != id) } where
  __ := so_far
  stranger p absent := by
    simp [so_far.stranger p absent]
  member p held found := by
    obtain ⟨kept, still, subset⟩ := so_far.member p held found
    refine ⟨kept.erase id, by simp [still], fun r member => subset r ?_⟩
    exact (Std.ExtTreeSet.mem_erase.mp member).2
  held p kept found r member defined := by
    simp only [Std.ExtTreeMap.getElem?_map, Option.map_eq_some_iff] at found
    obtain ⟨held, still, rfl⟩ := found
    have apart := Std.ExtTreeSet.mem_erase.mp member
    exact Std.ExtTreeMap.mem_erase.mpr ⟨apart.1, so_far.held p held still r apart.2 defined⟩
  defaulted defined := by
    refine Std.ExtTreeMap.mem_erase.mpr ⟨?_, so_far.defaulted defined⟩
    simpa using other
  roles q role found := by
    simp only [Std.ExtTreeMap.getElem?_erase, Std.LawfulEqCmp.compare_eq_iff_eq] at found
    split at found
    · cases found
    · exact so_far.roles q role found
  overrides o member := so_far.overrides o (List.mem_filter.mp member).1

private theorem Batch.edited (so_far : Batch before actor next) (edited : Edited before actor next e after) :
    Batch before actor after := by
  cases edited with
  | name => exact { so_far with }
  | isPublic own => exact { so_far with isPublic := fun other => absurd own other }
  | newcomerWait => exact { so_far with }
  | about => exact { so_far with }
  | channel => exact { so_far with }
  | channelDelete =>
    exact { so_far with overrides := fun o member => so_far.overrides o (List.mem_filter.mp member).1 }
  | override _ given =>
    refine { so_far with overrides := fun o member => ?_ }
    rcases mem_putOverride member with old | rfl
    · exact so_far.overrides o old
    · exact .inr given
  | role given => exact so_far.role given
  | roleDelete other _ => exact so_far.roleDelete other

private theorem Batch.refl (s : GroupState) (actor : PublicKey) : Batch s actor s where
  owner := rfl
  bans := rfl
  mutes := rfl
  joined := rfl
  silences := rfl
  isPublic _ := rfl
  stranger _ absent := absent
  member _ held found := ⟨held, found, fun _ member => member⟩
  held _ _ _ _ _ defined := defined
  defaulted defined := defined
  roles _ _ found := .inl found
  overrides _ member := .inl member

theorem edits_ok (ok : s.edits actor batch = .ok after) : Batch s actor after :=
  edits_invariant (Batch s actor) ok (.refl s actor) fun _ _ _ _ edited so_far => so_far.edited edited

/-- Nobody comes or goes by an edit. -/
theorem Batch.isMember (changed : Batch before actor next) (p : PublicKey) :
    next.isMember p = before.isMember p := by
  unfold GroupState.isMember
  rw [Std.ExtTreeMap.contains_eq_isSome_getElem?, Std.ExtTreeMap.contains_eq_isSome_getElem?]
  cases here : before.members[p]? with
  | none => rw [changed.stranger p here]
  | some held =>
    obtain ⟨kept, found, _⟩ := changed.member p held here
    rw [found]
    rfl

theorem applyEdit_ok (ok : s.applyEdit actor batch = (next, .ok ())) :
    s.isMember actor = true ∧ s.edits actor batch = .ok next := by
  obtain ⟨_, check, rfl⟩ := checked_ok.mp ok
  simp only [bind_eq_ok, requireMember_ok] at check
  obtain ⟨_, member, ran⟩ := check
  exact ⟨member, ran⟩

/-! ### Any accepted action -/

/-- An accepted action is a batch of edits by a member, or it moves people. -/
theorem act_ok {action : Action} (ok : s.act actor date action = (next, .ok ())) :
    Moved s actor action next ∨
      ∃ batch, action = .edit batch ∧ s.isMember actor = true ∧ s.edits actor batch = .ok next := by
  cases action with
  | put target roles => exact .inl (applyPut_ok ok)
  | remove target ban => exact .inl (applyRemove_ok ok)
  | unban target => exact .inl (applyUnban_ok ok)
  | mute target until_ => exact .inl (applyMute_ok ok)
  | edit batch => exact .inr ⟨batch, rfl, applyEdit_ok ok⟩
  | join code => exact .inl (applyJoin_ok ok)
  | leave => exact .inl (applyLeave_ok ok)
  | invite code expires => simp [act] at ok

theorem apply_ok [Nostr] {ev : Event} (ok : s.apply ev = (next, .ok ())) :
    ∃ group action, parseAction ev = some (group, action) ∧
      s.act ev.pubkey ev.createdAt action = (next, .ok ()) := by
  unfold apply at ok
  split at ok
  · simp at ok
  · rename_i group action read
    exact ⟨group, action, read, ok⟩

/-! ### A refused action -/

/-- A mute that passed its checks and is refused all the same: its end is not
after its date, or it lifts a mute there is not. -/
def RefusedLate (s : GroupState) (actor : PublicKey) (date : Timestamp) (target : PublicKey)
    (until_ : Option Timestamp) : Prop :=
  s.checkMute actor target = .ok () ∧ until_.elim (s.mutes.contains target = false) (· ≤ date)

theorem applyMute_error {until_ : Option Timestamp}
    (refused : s.applyMute actor date target until_ = (next, .error refusal)) :
    next = s ∨ RefusedLate s actor date target until_ ∧ next = s.endMutes target date := by
  unfold applyMute at refused
  split at refused
  · exact .inl (Prod.mk.inj refused).1.symm
  · rename_i check
    right
    cases until_ with
    | some u =>
      simp only at refused
      split at refused
      · simp at refused
      · rename_i notLater
        exact ⟨⟨check, le_of_not_gt notLater⟩, (Prod.mk.inj refused).1.symm⟩
    | none =>
      simp only at refused
      split at refused
      · simp at refused
      · rename_i unmuted
        exact ⟨⟨check, Bool.eq_false_iff.mpr unmuted⟩, (Prod.mk.inj refused).1.symm⟩

/-- A mute that is refused late has ended the running spans. -/
theorem applyMute_refusedLate {until_ : Option Timestamp}
    (late : RefusedLate s actor date target until_) :
    ∃ refusal, s.applyMute actor date target until_ = (s.endMutes target date, .error refusal) := by
  obtain ⟨check, reason⟩ := late
  cases until_ with
  | some u =>
    have notLater : ¬ date < u := not_lt_of_ge reason
    exact ⟨.malformed, by simp [applyMute, check, notLater]⟩
  | none =>
    have unmuted : (s.endMutes target date).mutes.contains target = false := reason
    exact ⟨.notMuted, by simp only [applyMute, check, unmuted, Bool.false_eq_true, ↓reduceIte]⟩

theorem act_error {action : Action} (refused : s.act actor date action = (next, .error refusal)) :
    next = s ∨ ∃ target until_, action = .mute target until_ ∧
      RefusedLate s actor date target until_ ∧ next = s.endMutes target date := by
  cases action with
  | mute target until_ =>
    exact (applyMute_error refused).imp_right fun late => ⟨target, until_, rfl, late⟩
  | invite code expires => exact .inl (Prod.mk.inj refused).1.symm
  | put target roles => exact .inl (checked_error refused)
  | remove target ban => exact .inl (checked_error refused)
  | unban target => exact .inl (checked_error refused)
  | edit batch => exact .inl (checked_error refused)
  | join code => exact .inl (checked_error refused)
  | leave => exact .inl (checked_error refused)

theorem apply_error [Nostr] {ev : Event} (refused : s.apply ev = (next, .error refusal)) :
    next = s ∨ ∃ group target until_, parseAction ev = some (group, .mute target until_) ∧
      RefusedLate s ev.pubkey ev.createdAt target until_ ∧ next = s.endMutes target ev.createdAt := by
  unfold apply at refused
  split at refused
  · exact .inl (Prod.mk.inj refused).1.symm
  · rename_i group action read
    rcases act_error refused with same | ⟨target, until_, rfl, late⟩
    · exact .inl same
    · exact .inr ⟨group, target, until_, read, late⟩

theorem apply_eq_of_ok [Nostr] {ev : Event} (ok : (s.apply ev).2 = .ok ()) :
    s.apply ev = ((s.apply ev).1, .ok ()) := Prod.ext rfl ok

end HitEnter.Group.GroupState
