import HitEnter.Group.Run
import HitEnter.Group.Snapshot

/-! What holds of a group in every state its fold goes through. `Sound` holds
whatever the snapshot says; `Settled` needs a snapshot whose bans and mutes agree
with its members. -/

namespace HitEnter.Group

open Wire

/-- Roles go by their own ids, none by the owner's marker, and none holds an
undefined bit. -/
structure RoleTable (roles : BTreeMap String RoleDef) : Prop where
  named : ∀ (r : String) role, roles[r]? = some role → role.id = r
  unmarked : ownerMark ∉ roles
  sane : ∀ (r : String) role, roles[r]? = some role →
    (Permissions.mk role.perms).sanitized = Permissions.mk role.perms

/-- The owner is a member, a plain member has a role, and members hold only roles. -/
structure Sound (s : GroupState) : Prop where
  owner : ∀ o, s.owner = some o → s.isMember o = true
  held : ∀ (p : PublicKey) held, s.members[p]? = some held → ∀ r ∈ held,
    r ∈ s.roles ∧ r ≠ defaultRole ∧ r ≠ ownerMark
  defaulted : defaultRole ∈ s.roles
  table : RoleTable s.roles

/-- Bans, mutes and join dates agree with the members. -/
structure Settled (s : GroupState) : Prop extends Sound s where
  banned : ∀ p ∈ s.bans, s.isMember p = false
  muted : ∀ p ∈ s.mutes, s.isMember p = true
  joined : ∀ p ∈ s.joined, s.isMember p = true

/-- A snapshot bans nobody it names as a member or owner, and mutes only members. -/
def Winners.Tidy (w : Winners) : Prop :=
  (∀ p ∈ w.bans, p ∉ w.members ∧ w.namedOwner ≠ some p) ∧ ∀ p ∈ w.mutes, p ∈ w.members

/-! ### The start -/

private theorem RoleTable.insert {roles : BTreeMap String RoleDef} (table : RoleTable roles)
    (role : RoleDef) (other : role.id ≠ ownerMark)
    (sane : (Permissions.mk role.perms).sanitized = Permissions.mk role.perms) :
    RoleTable (roles.insert role.id role) where
  named q found here := by
    simp only [Std.ExtTreeMap.getElem?_insert, Std.LawfulEqCmp.compare_eq_iff_eq] at here
    split at here
    · rename_i same
      cases here
      exact same
    · exact table.named q found here
  unmarked := by simp [Std.ExtTreeMap.mem_insert, other, table.unmarked]
  sane q found here := by
    simp only [Std.ExtTreeMap.getElem?_insert, Std.LawfulEqCmp.compare_eq_iff_eq] at here
    split at here
    · cases here
      exact sane
    · exact table.sane q found here

private theorem RoleTable.addRole {roles : BTreeMap String RoleDef} (table : RoleTable roles)
    (r : RoleDef) : RoleTable (addRole roles r) := by
  unfold Group.addRole
  split
  · exact table
  · rename_i other
    exact table.insert (GroupState.sanitizedRole r) other (Permissions.sanitized_sanitized ⟨r.perms⟩)

private theorem RoleTable.withDefaultRole {roles : BTreeMap String RoleDef} (table : RoleTable roles) :
    RoleTable (withDefaultRole roles) := by
  unfold Group.withDefaultRole
  split
  · exact table
  · exact table.insert { id := defaultRole, name := defaultRole, perms := 0, position := 0 }
      (by decide) (by decide)

private theorem default_mem_withDefaultRole (roles : BTreeMap String RoleDef) :
    defaultRole ∈ withDefaultRole roles := by
  unfold withDefaultRole
  split
  · rename_i present
    exact present
  · simp

private theorem roleTable_roleMap (w : Winners) : RoleTable w.roleMap := by
  have walked : ∀ (rows : List RoleDef) (roles : BTreeMap String RoleDef), RoleTable roles →
      RoleTable (rows.foldl addRole roles) := by
    intro rows
    induction rows with
    | nil => exact fun _ table => table
    | cons r rest ih => exact fun roles table => ih _ (table.addRole r)
  exact (walked w.roles ∅ ⟨by simp, by simp, by simp⟩).withDefaultRole

theorem Winners.isMember_state (w : Winners) {group : PublicKey} {creators : BTreeSet PublicKey}
    {p : PublicKey} : (w.state group creators).isMember p = true ↔
      some p = w.owner creators ∨ p ∈ w.members := by
  have lookup : (w.state group creators).members[p]? = (w.memberMap creators)[p]? := rfl
  rw [GroupState.isMember_iff, lookup, w.getElem?_memberMap]
  split <;> simp [*]

theorem Winners.sound (w : Winners) (group : PublicKey) (creators : BTreeSet PublicKey) :
    Sound (w.state group creators) := by
  have table := roleTable_roleMap w
  refine ⟨fun o own => w.isMember_state.mpr (.inl own.symm), ?_, default_mem_withDefaultRole _, table⟩
  intro p held found r member
  have lookup : (w.memberMap creators)[p]? = some held := found
  rw [w.getElem?_memberMap] at lookup
  have known : r ∈ w.assigned p ∅ := by
    split at lookup
    · cases lookup
      simp at member
    · split at lookup
      · cases lookup
        exact member
      · cases lookup
  unfold Winners.assigned at known
  cases assigned : w.assignments[p]? with
  | none => simp [assigned] at known
  | some roles =>
    simp only [assigned, Option.elim_some] at known
    obtain ⟨_, kept⟩ := Std.ExtTreeSet.mem_filter.mp known
    simp only [Std.ExtTreeSet.get_eq, Bool.and_eq_true, bne_iff_ne] at kept
    refine ⟨kept.2, kept.1, ?_⟩
    rintro rfl
    exact table.unmarked kept.2

theorem Winners.settled {w : Winners} (tidy : w.Tidy) (group : PublicKey)
    (creators : BTreeSet PublicKey) : Settled (w.state group creators) where
  __ := w.sound group creators
  banned p member := by
    obtain ⟨stranger, notOwner⟩ := tidy.1 p member
    refine Bool.eq_false_iff.mpr fun here => ?_
    rcases w.isMember_state.mp here with own | named
    · exact notOwner (Option.filter_eq_some_iff.mp own.symm).1
    · exact stranger named
  muted p member := w.isMember_state.mpr (.inr (tidy.2 p member))
  joined p member := by simp [Winners.state] at member

/-! ### Accepted actions -/

section Step
variable {s next : GroupState} {actor : PublicKey} {action : Action}

private theorem member_of_standing (standing : GroupState.Standing s actor action p next)
    (kept : s.isMember p = true) : next.isMember p = true ∨ some p ≠ s.owner := by
  cases standing with
  | same same => exact .inl (by rwa [GroupState.isMember, Std.ExtTreeMap.contains_eq_isSome_getElem?, same,
      ← Std.ExtTreeMap.contains_eq_isSome_getElem?])
  | gone _ notOwner => exact .inr notOwner
  | joined _ _ plain => exact .inl (GroupState.isMember_iff.mpr ⟨_, plain⟩)
  | put _ _ given => exact .inl (GroupState.isMember_iff.mpr ⟨_, given⟩)

theorem Sound.moved (sound : Sound s) (moved : GroupState.Moved s actor action next) : Sound next where
  owner o own := by
    rw [moved.rules.owner] at own
    exact (member_of_standing (moved.standing o) (sound.owner o own)).resolve_right (· own.symm)
  held p held found r member := by
    rw [moved.rules.roles]
    cases moved.standing p with
    | same kept => exact sound.held p held (kept ▸ found) r member
    | gone absent => simp [absent] at found
    | joined _ _ plain =>
      obtain rfl : held = ∅ := Option.some.inj (found.symm.trans plain)
      simp at member
    | put _ checks given =>
      obtain rfl : held = _ := Option.some.inj (found.symm.trans given)
      obtain ⟨unmarked, other, role, defined⟩ := checks.defined r member
      exact ⟨Std.ExtTreeMap.mem_iff_isSome_getElem?.mpr (by simp [defined]), other, unmarked⟩
  defaulted := moved.rules.roles ▸ sound.defaulted
  table := moved.rules.roles ▸ sound.table

theorem Settled.moved (settled : Settled s) (moved : GroupState.Moved s actor action next) : Settled next where
  __ := settled.toSound.moved moved
  banned p member := by
    refine Bool.eq_false_iff.mpr fun here => ?_
    obtain ⟨held, found⟩ := GroupState.isMember_iff.mp here
    rcases moved.banned p member with old | ⟨_, absent⟩
    · have stranger : s.members[p]? = none := GroupState.not_contains_members_iff.mp (settled.banned p old)
      cases moved.standing p with
      | same kept => simp [kept, stranger] at found
      | gone absent => simp [absent] at found
      | joined _ free => exact free old
      | put _ checks => exact checks.not_banned stranger old
    · simp [absent] at found
  muted p member := by
    obtain ⟨u, found⟩ := Std.ExtTreeMap.mem_iff_isSome_getElem?.mp member |> Option.isSome_iff_exists.mp
    obtain ⟨source, stays⟩ := moved.muted p u found
    rcases source with old | ⟨here, _⟩
    · exact stays (settled.muted p (Std.ExtTreeMap.mem_iff_isSome_getElem?.mpr (by simp [old])))
    · exact stays here
  joined p member := by
    obtain ⟨d, found⟩ := Std.ExtTreeMap.mem_iff_isSome_getElem?.mp member |> Option.isSome_iff_exists.mp
    rcases moved.joined p d found with ⟨old, stays⟩ | here
    · exact stays (settled.joined p (Std.ExtTreeMap.mem_iff_isSome_getElem?.mpr (by simp [old])))
    · exact here

theorem Sound.batch (sound : Sound s) (changed : GroupState.Batch s actor next) : Sound next where
  owner o own := by
    rw [changed.isMember]
    exact sound.owner o (changed.owner ▸ own)
  held p kept found r member := by
    cases here : s.members[p]? with
    | none => simp [changed.stranger p here] at found
    | some held =>
      obtain ⟨kept', found', subset⟩ := changed.member p held here
      obtain rfl : kept = kept' := Option.some.inj (found.symm.trans found')
      obtain ⟨defined, other, unmarked⟩ := sound.held p held here r (subset r member)
      exact ⟨changed.held p kept found r member defined, other, unmarked⟩
  defaulted := changed.defaulted sound.defaulted
  table :=
    { named := fun r role found => by
        rcases changed.roles r role found with old | ⟨own, _⟩
        · exact sound.table.named r role old
        · exact own
      unmarked := fun marked => by
        obtain ⟨role, found⟩ := Std.ExtTreeMap.mem_iff_isSome_getElem?.mp marked |> Option.isSome_iff_exists.mp
        rcases changed.roles _ role found with old | ⟨named, given⟩
        · exact sound.table.unmarked (Std.ExtTreeMap.mem_iff_isSome_getElem?.mpr (by simp [old]))
        · exact given.notMark named
      sane := fun r role found => by
        rcases changed.roles r role found with old | ⟨_, given⟩
        · exact sound.table.sane r role old
        · refine Permissions.ext_has fun i => ?_
          simp only [Permissions.has_sanitized, and_iff_left_iff_imp]
          exact given.sane i }

theorem Settled.batch (settled : Settled s) (changed : GroupState.Batch s actor next) : Settled next where
  __ := settled.toSound.batch changed
  banned p member := by
    rw [changed.isMember]
    exact settled.banned p (changed.bans ▸ member)
  muted p member := by
    rw [changed.isMember]
    exact settled.muted p (changed.mutes ▸ member)
  joined p member := by
    rw [changed.isMember]
    exact settled.joined p (changed.joined ▸ member)

variable [Nostr] {ev : Event}

theorem Sound.applied (sound : Sound s) (ok : s.apply ev = (next, .ok ())) : Sound next := by
  obtain ⟨_, _, _, done⟩ := GroupState.apply_ok ok
  rcases GroupState.act_ok done with moved | ⟨_, _, _, ran⟩
  · exact sound.moved moved
  · exact sound.batch (GroupState.edits_ok ran)

theorem Settled.applied (settled : Settled s) (ok : s.apply ev = (next, .ok ())) : Settled next := by
  obtain ⟨_, _, _, done⟩ := GroupState.apply_ok ok
  rcases GroupState.act_ok done with moved | ⟨_, _, _, ran⟩
  · exact settled.moved moved
  · exact settled.batch (GroupState.edits_ok ran)

end Step

/-! ### Every state of the fold -/

section Run
variable [Nostr] {group : PublicKey} {events : List Event} {s : GroupState}

theorem start_winners (found : GroupState.start group events = some s) :
    ∃ w invites, winners group events = some w ∧
      s = { w.state group (scan group events).creators with invites := invites } := by
  simp only [GroupState.start, snapshotState_eq, Option.bind_eq_bind, Option.bind_eq_some_iff,
    Option.map_eq_some_iff, Option.pure_def, Option.some.injEq] at found
  obtain ⟨_, ⟨w, won, rfl⟩, rfl⟩ := found
  exact ⟨w, _, won, rfl⟩

/-- What was applied was a live action. -/
theorem Reached.applied (reached : GroupState.Reached group events s) {id : EventId} (applied : id ∈ s.applied) :
    ∃ ev ∈ GroupState.live group events s.cutoff, ev.id = id := by
  induction reached with
  | start found =>
    obtain ⟨w, invites, _, rfl⟩ := start_winners found
    simp [Winners.state] at applied
  | attempt earlier member ih =>
    rename_i t ev
    rw [(GroupState.attempt_kept t ev).cutoff]
    rw [GroupState.attempt_applied] at applied
    split at applied
    · rcases Std.ExtTreeSet.mem_insert.mp applied with same | old
      · exact ⟨ev, member, by simpa using same⟩
      · exact ih old
    · exact ih applied

theorem Reached.sound (reached : GroupState.Reached group events s) : Sound s := by
  refine reached.invariant ?_ (fun s ev next _ ok sound => sound.applied ok)
    (fun s _ sound => { sound with }) fun s _ sound => { sound with }
  intro s found
  obtain ⟨w, invites, _, rfl⟩ := start_winners found
  exact { w.sound group (scan group events).creators with }

/-- Whatever is applied, and in whatever order, owner, members, roles, bans, mutes
and join dates stay in agreement. -/
theorem reached_settled (tidy : ∀ w, winners group events = some w → w.Tidy)
    (reached : GroupState.Reached group events s) : Settled s := by
  refine reached.invariant ?_ (fun s ev next _ ok settled => settled.applied ok)
    (fun s _ settled => { settled with }) fun s _ settled => { settled with }
  intro s found
  obtain ⟨w, invites, won, rfl⟩ := start_winners found
  exact { Winners.settled (tidy w won) group (scan group events).creators with }

end Run

theorem reached_settled_youngClub : ∃ s, GroupState.fold club youngClub = some s ∧ Settled s := by
  have folds : (GroupState.fold club youngClub).isSome = true := by decide +kernel
  have plainSnapshot : ((winners club youngClub).all fun w => w.bans.isEmpty && w.mutes.isEmpty) = true := by
    decide +kernel
  obtain ⟨s, found⟩ := Option.isSome_iff_exists.mp folds
  refine ⟨s, found, reached_settled (fun w won => ?_) (GroupState.fold_reached found)⟩
  have empty := Option.all_eq_true _ _ |>.mp plainSnapshot w won
  simp only [Bool.and_eq_true, Std.ExtTreeSet.isEmpty_iff, Std.ExtTreeMap.isEmpty_iff] at empty
  simp [Winners.Tidy, empty]

end HitEnter.Group
