import HitEnter.Group.Apply

/-! What an accepted action can have done. Each check and each write is taken
apart here once; the results about groups are proved from these statements and
never unfold an action again. -/

namespace HitEnter.Group.GroupState

open Wire Lib.Checks

variable {s next : GroupState} {actor target p : PublicKey} {date : Timestamp} {action : Action}

theorem checked_ok {check : Except Refusal α} {write : α → GroupState} :
    s.checked check write = (next, .ok ()) ↔ ∃ value, check = .ok value ∧ write value = next := by
  cases check <;> simp [checked]

theorem checked_error {check : Except Refusal α} {write : α → GroupState}
    (refused : s.checked check write = (next, .error refusal)) : next = s := by
  cases check with
  | error e => exact (Prod.mk.inj refused).1.symm
  | ok value => simp [checked] at refused

@[simp] theorem requireMember_ok {done : Unit} :
    s.requireMember actor = .ok done ↔ s.isMember actor = true := by
  unfold requireMember
  split <;> simp_all

@[simp] theorem require_ok {needed : Permissions} {done : Unit} :
    s.require actor needed = .ok done ↔ (s.base actor).contains needed = true := by
  unfold require
  split <;> simp_all

theorem isMember_iff : s.isMember p = true ↔ ∃ held, s.members[p]? = some held := by
  rw [isMember, Std.ExtTreeMap.contains_eq_isSome_getElem?, Option.isSome_iff_exists]

theorem contains_members_iff : s.members.contains p = true ↔ ∃ held, s.members[p]? = some held :=
  isMember_iff

theorem not_contains_members_iff : s.members.contains p = false ↔ s.members[p]? = none := by
  rw [Std.ExtTreeMap.contains_eq_isSome_getElem?, Option.isSome_eq_false_iff, Option.isNone_iff_eq_none]

/-- Below the actor, unless the actor is the owner. -/
theorem outranksRole_iff {role : RoleDef} :
    s.outranksRole actor role = true ↔ some actor = s.owner ∨ Rank.mk role.position < s.rank actor := by
  simp [outranksRole]

theorem canGrant_iff {granting : Permissions} :
    s.canGrant actor granting = true ↔ ∀ i, granting.has i → (s.base actor).has i :=
  Permissions.beyond_isEmpty_iff

/-! ### Put -/

private theorem grantRole_ok {wanted : BTreeSet String} {granting after : Permissions} {r : String} :
    s.grantRole actor wanted granting r = .ok after ↔
      ∃ role, s.roles[r]? = some role ∧ s.outranksRole actor role = true ∧
        (if wanted.contains r then granting.union ⟨role.perms⟩ else granting) = after := by
  simp only [grantRole, bind_eq_ok, orRefuse_eq_ok, refuseIf_eq_ok, pure_eq_ok, exists_const,
    Bool.not_eq_false']

private theorem granting_spec {wanted : BTreeSet String} {listed : List String}
    {granting total : Permissions}
    (ran : listed.foldlM (s.grantRole actor wanted) granting = .ok total) :
    (∀ i, granting.has i → total.has i) ∧ ∀ r ∈ listed, ∃ role, s.roles[r]? = some role ∧
      s.outranksRole actor role = true ∧
        (r ∈ wanted → ∀ i, (Permissions.mk role.perms).has i → total.has i) := by
  induction listed generalizing granting with
  | nil =>
    simp only [List.foldlM_nil, pure_eq_ok] at ran
    subst total
    simp
  | cons r rest ih =>
    simp only [List.foldlM_cons, bind_eq_ok] at ran
    obtain ⟨middle, first, ran⟩ := ran
    obtain ⟨grows, later⟩ := ih ran
    obtain ⟨role, found, above, same⟩ := grantRole_ok.mp first
    have step : ∀ i, granting.has i → middle.has i := by
      intro i held
      rw [← same]
      split <;> simp [held]
    refine ⟨fun i held => grows i (step i held), ?_⟩
    intro other member
    rcases List.mem_cons.mp member with rfl | member
    · refine ⟨role, found, above, fun want i held => grows i ?_⟩
      rw [← same]
      simp [Std.ExtTreeSet.contains_iff_mem.mpr want, held]
    · exact later other member

/-- What the checks of a put establish: whatever it adds is defined, below the
actor, and grants nothing the actor lacks. -/
structure PutChecks (s : GroupState) (actor target : PublicKey) (wanted : BTreeSet String) : Prop where
  actor_member : s.isMember actor = true
  not_owner : some target ≠ s.owner
  defined : ∀ r ∈ wanted, r ≠ ownerMark ∧ r ≠ defaultRole ∧ ∃ role, s.roles[r]? = some role
  not_banned : s.members[target]? = none → target ∉ s.bans
  added : ∀ r ∈ wanted, r ∉ (s.members[target]?).getD ∅ → ∃ role, s.roles[r]? = some role ∧
    s.outranksRole actor role = true ∧ ∀ i, (Permissions.mk role.perms).has i → (s.base actor).has i

private theorem mem_symmetricDifference {wanted held : BTreeSet String} {r : String}
    (want : r ∈ wanted) (new : r ∉ held) : r ∈ symmetricDifference wanted held := by
  have absent : held.contains r = false :=
    Bool.eq_false_iff.mpr fun present => new (Std.ExtTreeSet.contains_iff_mem.mp present)
  refine List.mem_filter.mpr ⟨?_, ?_⟩
  · exact Std.ExtTreeSet.mem_toList.mpr (Std.ExtTreeSet.mem_union_iff.mpr (.inl want))
  · simp [absent, Std.ExtTreeSet.contains_iff_mem.mpr want]

private theorem checkNewcomer_ok (ok : s.checkNewcomer actor target = .ok done)
    (absent : s.members[target]? = none) : target ∉ s.bans := by
  simp only [checkNewcomer, not_contains_members_iff.mpr absent, Bool.false_eq_true, ↓reduceIte,
    bind_eq_ok, refuseIf_eq_ok] at ok
  obtain ⟨_, free, _⟩ := ok
  intro banned
  simp [Std.ExtTreeSet.contains_iff_mem.mpr banned] at free

private theorem checkRoleChange_ok {wanted : BTreeSet String}
    (ok : s.checkRoleChange actor target wanted = .ok done) (want : r ∈ wanted)
    (new : r ∉ (s.members[target]?).getD ∅) : ∃ role, s.roles[r]? = some role ∧
      s.outranksRole actor role = true ∧
        ∀ i, (Permissions.mk role.perms).has i → (s.base actor).has i := by
  unfold checkRoleChange at ok
  split at ok
  · rename_i same
    exact absurd (same ▸ want) new
  · simp only [bind_eq_ok, refuseIf_eq_ok, Bool.not_eq_false'] at ok
    obtain ⟨_, _, _, _, total, ran, grant⟩ := ok
    obtain ⟨role, found, above, given⟩ := (granting_spec ran).2 r (mem_symmetricDifference want new)
    exact ⟨role, found, above, fun i held => canGrant_iff.mp grant i (given want i held)⟩

theorem checkPut_ok {roles wanted : BTreeSet String} (ok : s.checkPut actor target roles = .ok wanted) :
    PutChecks s actor target wanted := by
  simp only [checkPut, bind_eq_ok, requireMember_ok, refuseIf_eq_ok, pure_eq_ok] at ok
  obtain ⟨_, member, _, notOwner, _, known, _, newcomer, _, change, rfl⟩ := ok
  refine ⟨member, by simpa using notOwner, ?_, checkNewcomer_ok newcomer,
    fun r => checkRoleChange_ok change⟩
  intro r want
  have sane := List.any_eq_false.mp known r (Std.ExtTreeSet.mem_toList.mpr want)
  have other : r ≠ defaultRole := by
    obtain ⟨_, kept⟩ := Std.ExtTreeSet.mem_filter.mp want
    simpa using kept
  simp only [Bool.or_eq_true, beq_iff_eq, Bool.not_eq_true', not_or, Bool.not_eq_false] at sane
  rw [Std.ExtTreeMap.contains_eq_isSome_getElem?, Option.isSome_iff_exists] at sane
  exact ⟨sane.1, other, sane.2⟩

/-- Nobody but the owner is below the owner; everyone else goes by rank. -/
theorem outranks_iff : s.outranks actor target = true ↔
    some target ≠ s.owner ∧ (some actor = s.owner ∨ s.rank target < s.rank actor) := by
  unfold outranks
  split
  · simp_all
  · split <;> simp_all

/-! ### The silences of others -/

/-- The spans of one person. -/
def spansOf (s : GroupState) (who : PublicKey) : List Silence := s.silences.filter (·.who = who)

private theorem filter_who_map {spans : List Silence} {change : Silence → Silence} {who : PublicKey}
    (owner : ∀ span, (change span).who = span.who) (kept : ∀ span, span.who = who → change span = span) :
    (spans.map change).filter (·.who = who) = spans.filter (·.who = who) := by
  induction spans with
  | nil => rfl
  | cons span rest ih =>
    simp only [List.map_cons, List.filter_cons, owner, ih]
    split
    · rename_i own
      rw [kept span (by simpa using own)]
    · rfl

theorem spansOf_letBackIn (other : p ≠ target) : (s.letBackIn target date).spansOf p = s.spansOf p := by
  refine filter_who_map (fun span => by split <;> rfl) fun span own => ?_
  simp [own, other]

theorem spansOf_endMutes (other : p ≠ target) : (s.endMutes target date).spansOf p = s.spansOf p := by
  refine filter_who_map (fun span => by split <;> rfl) fun span own => ?_
  simp [own, other]

theorem spansOf_silence {until_ : Option Timestamp} {mute : Bool} (other : p ≠ target) :
    (s.silence target date until_ mute).spansOf p = s.spansOf p := by
  simp [spansOf, silence, other.symm]

/-! ### Accepted actions other than an edit -/

/-- How an accepted action other than an edit can leave `p`. -/
inductive Standing (s : GroupState) (actor : PublicKey) (action : Action) (p : PublicKey) (next : GroupState) :
    Prop where
  | same (kept : next.members[p]? = s.members[p]?)
  | gone (absent : next.members[p]? = none) (notOwner : some p ≠ s.owner)
      (below : p = actor ∨ s.outranks actor p = true)
  | joined (stranger : s.members[p]? = none) (free : p ∉ s.bans) (plain : next.members[p]? = some ∅)
  | put {roles wanted : BTreeSet String} (asked : action = .put p roles) (checks : PutChecks s actor p wanted)
      (given : next.members[p]? = some wanted)

/-- What only an edit changes. -/
structure SameRules (s next : GroupState) : Prop where
  owner : next.owner = s.owner
  isPublic : next.isPublic = s.isPublic
  channels : next.channels = s.channels
  overrides : next.overrides = s.overrides
  roles : next.roles = s.roles

/-- What an accepted action other than an edit can do, and to whom. -/
structure Moved (s : GroupState) (actor : PublicKey) (action : Action) (next : GroupState) : Prop where
  rules : SameRules s next
  standing : ∀ p, Standing s actor action p next
  banned : ∀ p ∈ next.bans, p ∈ s.bans ∨ s.outranks actor p = true ∧ next.members[p]? = none
  muted : ∀ p u, next.mutes[p]? = some u →
    (s.mutes[p]? = some u ∨ s.isMember p = true ∧ s.outranks actor p = true) ∧
      (s.isMember p = true → next.isMember p = true)
  joined : ∀ p d, next.joined[p]? = some d →
    s.joined[p]? = some d ∧ (s.isMember p = true → next.isMember p = true) ∨ next.isMember p = true
  spans : ∀ p, some p = s.owner → p ≠ actor → next.spansOf p = s.spansOf p

/-- `target` comes in, or their roles change. -/
private theorem moved_in (target : PublicKey) (held : BTreeSet String) (rules : SameRules s next)
    (members : next.members = s.members.insert target held) (bans : next.bans = s.bans)
    (mutes : next.mutes = s.mutes)
    (standing : next.members[target]? = some held → Standing s actor action target next)
    (joined : ∀ p d, next.joined[p]? = some d → s.joined[p]? = some d ∨ p = target)
    (spans : ∀ p, p ≠ target → next.spansOf p = s.spansOf p)
    (notOwner : some target ≠ s.owner ∨ target = actor) : Moved s actor action next := by
  have own : next.members[target]? = some held := by
    rw [members]
    exact Std.ExtTreeMap.getElem?_insert_self
  have stays : ∀ p, s.isMember p = true → next.isMember p = true := by
    intro p member
    simp only [isMember, members, Std.ExtTreeMap.contains_insert, Bool.or_eq_true]
    exact .inr member
  refine
    { rules := rules
      standing := fun p => ?_
      banned := fun p member => .inl (bans ▸ member)
      muted := fun p u found => ⟨.inl (mutes ▸ found), stays p⟩
      joined := fun p d found => ?_
      spans := fun p isOwner other => spans p ?_ }
  · by_cases same : p = target
    · exact same ▸ standing own
    · refine .same ?_
      rw [members, Std.ExtTreeMap.getElem?_insert]
      simp [Ne.symm same]
  · rcases joined p d found with old | rfl
    · exact .inl ⟨old, stays p⟩
    · exact .inr (isMember_iff.mpr ⟨held, own⟩)
  · rintro rfl
    rcases notOwner with notOwner | same
    · exact notOwner isOwner
    · exact other same

/-- `target` goes out, and what is remembered about their membership with them. -/
private theorem moved_out (target : PublicKey) (rules : SameRules s next)
    (members : next.members = s.members.erase target) (mutes : next.mutes = s.mutes.erase target)
    (joined : next.joined = s.joined.erase target)
    (below : target = actor ∨ s.outranks actor target = true) (notOwner : some target ≠ s.owner)
    (banned : ∀ p ∈ next.bans, p ∈ s.bans ∨ p = target ∧ s.outranks actor target = true)
    (spans : ∀ p, p ≠ target → next.spansOf p = s.spansOf p) : Moved s actor action next := by
  have lookup : ∀ p, next.members[p]? = if target = p then none else s.members[p]? := by
    intro p
    simp [members, Std.ExtTreeMap.getElem?_erase]
  have stays : ∀ p, target ≠ p → s.isMember p = true → next.isMember p = true := by
    intro p other member
    obtain ⟨held, found⟩ := isMember_iff.mp member
    exact isMember_iff.mpr ⟨held, by rw [lookup, if_neg other, found]⟩
  refine
    { rules := rules
      standing := fun p => ?_
      banned := fun p member => ?_
      muted := fun p u found => ?_
      joined := fun p d found => ?_
      spans := fun p isOwner _ => spans p fun same => notOwner (same ▸ isOwner) }
  · by_cases same : target = p
    · subst same
      exact .gone (by rw [lookup, if_pos rfl]) notOwner below
    · exact .same (by rw [lookup, if_neg same])
  · rcases banned p member with old | ⟨rfl, above⟩
    · exact .inl old
    · exact .inr ⟨above, by rw [lookup, if_pos rfl]⟩
  · simp only [mutes, Std.ExtTreeMap.getElem?_erase, Std.LawfulEqCmp.compare_eq_iff_eq] at found
    split at found
    · cases found
    · rename_i other
      exact ⟨.inl found, stays p other⟩
  · simp only [joined, Std.ExtTreeMap.getElem?_erase, Std.LawfulEqCmp.compare_eq_iff_eq] at found
    split at found
    · cases found
    · rename_i other
      exact .inl ⟨found, stays p other⟩

/-- Nobody comes or goes: only bans, mutes and spans change. -/
private theorem moved_still (rules : SameRules s next) (members : next.members = s.members)
    (joined : next.joined = s.joined)
    (banned : ∀ p ∈ next.bans, p ∈ s.bans ∨ s.outranks actor p = true ∧ s.members[p]? = none)
    (muted : ∀ p u, next.mutes[p]? = some u →
      s.mutes[p]? = some u ∨ s.isMember p = true ∧ s.outranks actor p = true)
    (spans : ∀ p, some p = s.owner → next.spansOf p = s.spansOf p) : Moved s actor action next := by
  have stays : ∀ p, s.isMember p = true → next.isMember p = true := by
    intro p member
    rw [isMember, members]
    exact member
  exact
    { rules := rules
      standing := fun p => .same (by rw [members])
      banned := fun p member => by
        rw [members]
        exact banned p member
      muted := fun p u found => ⟨muted p u found, stays p⟩
      joined := fun p d found => .inl ⟨joined ▸ found, stays p⟩
      spans := fun p isOwner _ => spans p isOwner }

theorem applyPut_ok {roles : BTreeSet String}
    (ok : s.applyPut actor date target roles = (next, .ok ())) :
    Moved s actor (.put target roles) next := by
  obtain ⟨wanted, check, rfl⟩ := checked_ok.mp ok
  have checks := checkPut_ok check
  refine moved_in target wanted ?_ ?_ ?_ ?_ (.put rfl checks) ?_ ?_ (.inl checks.not_owner)
  · split <;> exact ⟨rfl, rfl, rfl, rfl, rfl⟩
  · split <;> rfl
  · split <;> rfl
  · split <;> rfl
  · intro p d found
    split at found <;> exact .inl found
  · intro p other
    split
    · rfl
    · exact spansOf_letBackIn other

theorem checkRemove_ok {ban : Bool} (ok : s.checkRemove actor target ban = .ok done) :
    some target ≠ s.owner ∧ (s.members.contains target = true ∨ ban = true) ∧
      s.outranks actor target = true := by
  simp only [checkRemove, bind_eq_ok, requireMember_ok, refuseIf_eq_ok, require_ok] at ok
  obtain ⟨_, _, _, notOwner, _, present, _, _, above⟩ := ok
  refine ⟨by simpa using notOwner, ?_, by simpa using above⟩
  cases ban <;> simp_all

theorem applyRemove_ok {ban : Bool} (ok : s.applyRemove actor date target ban = (next, .ok ())) :
    Moved s actor (.remove target ban) next := by
  obtain ⟨_, check, rfl⟩ := checked_ok.mp ok
  obtain ⟨notOwner, present, above⟩ := checkRemove_ok check
  by_cases member : s.members.contains target = true
  · simp only [member, Bool.true_or, ↓reduceIte]
    refine moved_out target ?_ ?_ ?_ ?_ (.inr above) notOwner ?_ ?_
    · split <;> exact ⟨rfl, rfl, rfl, rfl, rfl⟩
    · split <;> rfl
    · split <;> rfl
    · split <;> rfl
    · intro p banned
      split at banned
      · exact (Std.ExtTreeSet.mem_insert.mp banned).symm.imp_right fun same =>
          ⟨(Std.LawfulEqCmp.compare_eq_iff_eq.mp same).symm, above⟩
      · exact .inl banned
    · intro p other
      split <;> exact spansOf_silence other
  · obtain rfl : ban = true := present.resolve_left member
    have absent := not_contains_members_iff.mp (Bool.eq_false_iff.mpr member)
    simp only [member, Bool.or_true, ↓reduceIte, Bool.false_eq_true]
    refine moved_still ⟨rfl, rfl, rfl, rfl, rfl⟩ rfl rfl ?_ (fun p u found => .inl found) ?_
    · intro p banned
      rcases Std.ExtTreeSet.mem_insert.mp banned with same | old
      · exact .inr (Std.LawfulEqCmp.compare_eq_iff_eq.mp same ▸ ⟨above, absent⟩)
      · exact .inl old
    · exact fun p isOwner => spansOf_silence fun same => notOwner (same ▸ isOwner)

theorem applyUnban_ok (ok : s.applyUnban actor target = (next, .ok ())) :
    Moved s actor (.unban target) next := by
  obtain ⟨_, _, rfl⟩ := checked_ok.mp ok
  refine moved_still ⟨rfl, rfl, rfl, rfl, rfl⟩ rfl rfl (fun p banned => .inl ?_)
    (fun p u found => .inl found) fun p _ => rfl
  exact (Std.ExtTreeSet.mem_erase.mp banned).2

theorem checkMute_ok (ok : s.checkMute actor target = .ok done) :
    some target ≠ s.owner ∧ s.isMember target = true ∧ s.outranks actor target = true := by
  simp only [checkMute, bind_eq_ok, requireMember_ok, refuseIf_eq_ok, require_ok] at ok
  obtain ⟨_, _, _, notOwner, _, present, _, _, above⟩ := ok
  exact ⟨by simpa using notOwner, by simpa [isMember] using present, by simpa using above⟩

/-- An accepted mute either sets an end after its date or lifts a mute there is. -/
theorem applyMute_cases {until_ : Option Timestamp}
    (ok : s.applyMute actor date target until_ = (next, .ok ())) :
    s.checkMute actor target = .ok () ∧
      ((∃ u, until_ = some u ∧ date < u ∧
          next = { s.endMutes target date with mutes := s.mutes.insert target u }.silence
            target date (some u) true) ∨
        (until_ = none ∧ s.mutes.contains target = true ∧
          next = { s.endMutes target date with mutes := s.mutes.erase target })) := by
  unfold applyMute at ok
  split at ok
  · simp at ok
  · rename_i check
    refine ⟨check, ?_⟩
    cases until_ with
    | some u =>
      simp only at ok
      split at ok
      · rename_i later
        exact .inl ⟨u, rfl, later, (Prod.mk.inj ok).1.symm⟩
      · simp at ok
    | none =>
      simp only at ok
      split at ok
      · rename_i muted
        exact .inr ⟨rfl, muted, (Prod.mk.inj ok).1.symm⟩
      · simp at ok

theorem applyMute_ok {until_ : Option Timestamp}
    (ok : s.applyMute actor date target until_ = (next, .ok ())) :
    Moved s actor (.mute target until_) next := by
  obtain ⟨check, set | lifted⟩ := applyMute_cases ok
  all_goals obtain ⟨notOwner, member, above⟩ := checkMute_ok check
  · obtain ⟨u, _, _, rfl⟩ := set
    refine moved_still ⟨rfl, rfl, rfl, rfl, rfl⟩ rfl rfl (fun p banned => .inl banned) ?_ ?_
    · intro p v found
      simp only [silence, Std.ExtTreeMap.getElem?_insert, Std.LawfulEqCmp.compare_eq_iff_eq] at found
      split at found
      · rename_i same
        exact .inr (same ▸ ⟨member, above⟩)
      · exact .inl found
    · intro p isOwner
      have other : p ≠ target := fun same => notOwner (same ▸ isOwner)
      exact (spansOf_silence other).trans (spansOf_endMutes other)
  · obtain ⟨_, _, rfl⟩ := lifted
    refine moved_still ⟨rfl, rfl, rfl, rfl, rfl⟩ rfl rfl (fun p banned => .inl banned) ?_ ?_
    · intro p v found
      simp only [Std.ExtTreeMap.getElem?_erase, Std.LawfulEqCmp.compare_eq_iff_eq] at found
      split at found
      · cases found
      · exact .inl found
    · exact fun p isOwner => spansOf_endMutes fun same => notOwner (same ▸ isOwner)

theorem applyJoin_ok {code : Option String}
    (ok : s.applyJoin actor date code = (next, .ok ())) : Moved s actor (.join code) next := by
  obtain ⟨_, check, rfl⟩ := checked_ok.mp ok
  simp only [checkJoin, bind_eq_ok, refuseIf_eq_ok] at check
  obtain ⟨_, stranger, _, _, free⟩ := check
  have notBanned : actor ∉ s.bans := fun banned => by
    simp [Std.ExtTreeSet.contains_iff_mem.mpr banned] at free
  refine moved_in actor ∅ ⟨rfl, rfl, rfl, rfl, rfl⟩ rfl rfl rfl
    (.joined (not_contains_members_iff.mp stranger) notBanned) ?_ ?_ (.inr rfl)
  · intro p d found
    simp only [letBackIn, Std.ExtTreeMap.getElem?_insert, Std.LawfulEqCmp.compare_eq_iff_eq] at found
    split at found
    · rename_i same
      exact .inr same.symm
    · exact .inl found
  · exact fun p other => spansOf_letBackIn other

theorem applyLeave_ok (ok : s.applyLeave actor date = (next, .ok ())) :
    Moved s actor .leave next := by
  obtain ⟨_, check, rfl⟩ := checked_ok.mp ok
  simp only [checkLeave, bind_eq_ok, refuseIf_eq_ok] at check
  obtain ⟨_, notOwner, _⟩ := check
  exact moved_out actor ⟨rfl, rfl, rfl, rfl, rfl⟩ rfl rfl rfl (.inl rfl)
    (by simpa using notOwner) (fun p banned => .inl banned) fun p other => spansOf_silence other

end HitEnter.Group.GroupState
