import HitEnter.Group.Escalation
import HitEnter.Group.Invariant
import HitEnter.Wire.Actions

/-! What a role picker offers and what the fold takes. The rules stand twice: once for a
single role, and once inside the action for every role in which two sets differ. -/

namespace HitEnter.Group

open Wire Lib.Checks Lib.Maps

namespace GroupState

/-- May `actor` hand out (or take back) the role `id`? What a picker offers. -/
def mayAssign (s : GroupState) (actor : PublicKey) (id : String) : Bool :=
  (s.roles[id]?).any fun r =>
    id != defaultRole && (s.base actor).contains .manageRoles && s.outranksRole actor r && s.canGrant actor ⟨r.perms⟩

/-! ### Sets that differ in one role -/

section One
variable {held : BTreeSet String} {r : String}

private theorem filter_one {items : List String} {differs : String → Bool} (distinct : items.Nodup) (listed : r ∈ items)
    (only : ∀ x, differs x = true ↔ x = r) : items.filter differs = [r] := by
  have same : items.filter differs = items.filter (· == r) := by
    refine List.filter_congr fun x _ => ?_
    rw [Bool.eq_iff_iff, only, beq_iff_eq]
  rw [same, List.filter_beq, List.count_eq_one_of_mem distinct listed]
  rfl

private theorem nodup_toList (roles : BTreeSet String) : roles.toList.Nodup :=
  Std.ExtTreeSet.distinct_toList.imp fun differ same => by simp [same] at differ

theorem symmetricDifference_insert (new : r ∉ held) : symmetricDifference (held.insert r) held = [r] := by
  refine filter_one (nodup_toList _) (Std.ExtTreeSet.mem_toList.mpr (Std.ExtTreeSet.mem_union_iff.mpr (.inl ?_))) fun x => ?_
  · exact Std.ExtTreeSet.mem_insert_self
  · by_cases same : x = r
    · subst same
      simp [Bool.eq_false_iff.mpr fun here => new (Std.ExtTreeSet.contains_iff_mem.mp here)]
    · simp [Std.ExtTreeSet.contains_insert, same, Ne.symm same]

theorem symmetricDifference_erase (old : r ∈ held) : symmetricDifference (held.erase r) held = [r] := by
  refine filter_one (nodup_toList _) (Std.ExtTreeSet.mem_toList.mpr (Std.ExtTreeSet.mem_union_iff.mpr (.inr old))) fun x => ?_
  by_cases same : x = r
  · subst same
    simp [Std.ExtTreeSet.contains_iff_mem.mpr old]
  · simp [Std.ExtTreeSet.contains_erase, same, Ne.symm same]

end One

/-! ### One role more, or one less -/

section Put
variable {s : GroupState} {actor target : PublicKey} {held wanted : BTreeSet String} {r : String} {role : RoleDef}

@[simp] theorem canGrant_none : s.canGrant actor .none = true := canGrant_iff.mpr fun i bit => absurd bit (Permissions.has_none i)

@[simp] theorem union_none (p : Permissions) : Permissions.none.union p = p := Permissions.ext_has fun i => by simp

/-- A change of one role is checked as that role is. -/
theorem checkRoleChange_one (member : s.members[target]? = some held) (above : s.outranks actor target = true)
    (defined : s.roles[r]? = some role) (one : symmetricDifference wanted held = [r]) (differ : wanted ≠ held) :
    s.checkRoleChange actor target wanted = .ok () ↔ (s.base actor).contains .manageRoles = true ∧
      s.outranksRole actor role = true ∧ (wanted.contains r = true → s.canGrant actor ⟨role.perms⟩ = true) := by
  rw [checkRoleChange, member, Option.getD_some, if_neg differ, one]
  cases given : wanted.contains r <;>
    simp [grantRole, defined, above, given, bind_eq_ok]

/-- A member's roles are replaced by ones that are all roles just where the change may be made. -/
theorem checkPut_member (sound : Sound s) (member : s.members[target]? = some held)
    (above : s.outranks actor target = true) (known : ∀ x ∈ wanted, x ∈ s.roles ∧ x ≠ defaultRole) :
    (∃ given, s.checkPut actor target wanted = .ok given) ↔
      s.isMember actor = true ∧ s.checkRoleChange actor target wanted = .ok () := by
  have notOwner : some target ≠ s.owner := (outranks_iff.mp above).1
  have plain : wanted.filter (· != defaultRole) = wanted := by
    refine Std.ExtTreeSet.ext_mem fun x => ?_
    simp only [Std.ExtTreeSet.mem_filter, Std.ExtTreeSet.get_eq, bne_iff_ne]
    exact ⟨fun kept => kept.1, fun want => ⟨want, (known x want).2⟩⟩
  have defined : (wanted.toList.any fun x => x == ownerMark || !s.roles.contains x) = false := by
    refine List.any_eq_false.mpr fun x listed => ?_
    have here := (known x (Std.ExtTreeSet.mem_toList.mp listed)).1
    have unmarked : x ≠ ownerMark := fun same => sound.table.unmarked (same ▸ here)
    simp [unmarked, Std.ExtTreeMap.contains_iff_mem.mpr here]
  have old : s.checkNewcomer actor target = .ok () := if_pos (contains_members_iff.mpr ⟨held, member⟩)
  cases changed : s.checkRoleChange actor target wanted <;> simp [checkPut, plain, defined, old, notOwner, changed]

end Put

end GroupState

section Event
variable [Nostr] {s : GroupState} {group actor target : PublicKey}

/-- A `9000` reads back as it was built. -/
theorem parseAction_putUser {roles : List String} {date : Timestamp} :
    parseAction ((Draft.putUser group target roles).sign actor date) = some (group, .put target (.ofList roles)) := by
  have own : groupOf ((Draft.putUser group target roles).sign actor date) = some group := groupOf_sign _ rfl
  have named : actionTarget ((Draft.putUser group target roles).sign actor date) = some target := by
    simp [actionTarget, firstValue, Draft.sign, signed, Draft.putUser, Draft.h]
  simp only [parseAction, own, named, Option.bind_eq_bind, Option.bind_some]
  simp [Draft.sign, signed, Draft.putUser, Draft.h]

end Event

section Agree
variable [Nostr] {group : PublicKey} {events : List Event} {s : GroupState} {actor target : PublicKey}
  {held wanted : BTreeSet String} {r : String} {role : RoleDef}

/-- A `9000` for a member is accepted just where its check passes. -/
private theorem apply_put {ev : Event} {g : PublicKey} (read : parseAction ev = some (g, .put target wanted)) :
    (s.apply ev).2 = .ok () ↔ ∃ given, s.checkPut ev.pubkey target wanted = .ok given := by
  rw [GroupState.apply, read]
  cases checked : s.checkPut ev.pubkey target wanted <;> simp [GroupState.act, GroupState.applyPut, GroupState.checked, checked]

omit [Nostr] in
/-- Whoever may manage roles at all is a member. -/
private theorem member_of_manages (sound : Sound s) (may : (s.base actor).contains .manageRoles = true) :
    s.isMember actor = true := by
  by_cases own : some actor = s.owner
  · exact sound.owner actor own.symm
  · cases found : s.members[actor]? with
    | some held => exact GroupState.isMember_iff.mpr ⟨held, found⟩
    | none =>
      rw [GroupState.base_stranger own found] at may
      exact absurd may (by decide)

/-- In every state of a fold, of every member the actor is above: a role they do not hold
is one the picker offers just where a `9000` giving it with the ones they hold is applied;
and one they hold that the picker offers can be taken away alone. -/
theorem mayAssign_iff_applied (reached : GroupState.Reached group events s) (member : s.members[target]? = some held)
    (above : s.outranks actor target = true) (defined : s.roles[r]? = some role) (other : r ≠ defaultRole) :
    (r ∉ held → ∀ ev g, ev.pubkey = actor → parseAction ev = some (g, .put target (held.insert r)) →
        (s.mayAssign actor r = true ↔ (s.apply ev).2 = .ok ())) ∧
      (r ∈ held → s.mayAssign actor r = true → ∀ ev g, ev.pubkey = actor →
        parseAction ev = some (g, .put target (held.erase r)) → (s.apply ev).2 = .ok ()) := by
  have sound := Reached.sound reached
  have offered : s.mayAssign actor r = true ↔ (s.base actor).contains .manageRoles = true ∧
      s.outranksRole actor role = true ∧ s.canGrant actor ⟨role.perms⟩ = true := by
    simp [GroupState.mayAssign, defined, other, and_assoc]
  have old : ∀ x ∈ held, x ∈ s.roles ∧ x ≠ defaultRole := fun x here =>
    ⟨(sound.held target held member x here).1, (sound.held target held member x here).2.1⟩
  constructor
  · intro new ev g author read
    subst author
    have known : ∀ x ∈ held.insert r, x ∈ s.roles ∧ x ≠ defaultRole := by
      intro x here
      rcases Std.ExtTreeSet.mem_insert.mp here with same | here
      · obtain rfl := compare_eq_iff_eq.mp same
        exact ⟨Std.ExtTreeMap.mem_iff_isSome_getElem?.mpr (by simp [defined]), other⟩
      · exact old x here
    have differ : held.insert r ≠ held := fun same => new (same ▸ Std.ExtTreeSet.mem_insert_self)
    have given : (held.insert r).contains r = true := Std.ExtTreeSet.contains_insert_self
    rw [offered, apply_put read, GroupState.checkPut_member sound member above known,
      GroupState.checkRoleChange_one member above defined (GroupState.symmetricDifference_insert new) differ, given]
    simp only [true_imp_iff, iff_and_self]
    exact fun may => member_of_manages sound may.1
  · intro here may ev g author read
    subst author
    obtain ⟨manages, below, _⟩ := offered.mp may
    have known : ∀ x ∈ held.erase r, x ∈ s.roles ∧ x ≠ defaultRole := fun x kept =>
      old x (Std.ExtTreeSet.mem_of_mem_erase kept)
    have differ : held.erase r ≠ held := fun same => by
      rw [← same] at here
      simp at here
    refine (apply_put read).mpr ((GroupState.checkPut_member sound member above known).mpr
      ⟨member_of_manages sound manages, ?_⟩)
    rw [GroupState.checkRoleChange_one member above defined (GroupState.symmetricDifference_erase here) differ]
    exact ⟨manages, below, fun given => by simp at given⟩

end Agree

/-- The steward may give the guest the desk's role, and does. -/
theorem mayAssign_iff_applied_deskPut : ∃ s, GroupState.Reached club GroupState.staffEvents s ∧
    s.mayAssign steward "desk" = true ∧
      (s.mayAssign steward "desk" = true ↔ (s.apply GroupState.deskPut).2 = .ok ()) := by
  have checked : ((GroupState.start club GroupState.staffEvents).any fun s => decide (s.members[guest]? = some ∅) &&
      s.outranks steward guest && (s.roles["desk"]?).isSome && s.mayAssign steward "desk") = true := by
    decide +kernel
  obtain ⟨s, reached, facts⟩ := GroupState.reached_of_start checked
  simp only [Bool.and_eq_true, decide_eq_true_eq, Option.isSome_iff_exists] at facts
  obtain ⟨⟨⟨member, above⟩, role, defined⟩, offered⟩ := facts
  have agree := (mayAssign_iff_applied reached member above defined (by decide)).1 (by simp)
  exact ⟨s, reached, offered, agree GroupState.deskPut club rfl parseAction_putUser⟩

end HitEnter.Group
