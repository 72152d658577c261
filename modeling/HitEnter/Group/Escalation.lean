import HitEnter.Group.EditSpec
import HitEnter.Group.FoldSpec

/-! No action hands out more than its author holds. Group-wide the bound is the
author's own permissions; in a channel it also takes in what the group-wide
rules move, since a role is given and edited by its group-wide bits alone. -/

namespace HitEnter.Group.GroupState

open Wire

variable {s next : GroupState} {actor p : PublicKey} {date : Timestamp} {action : Action}
  {c : String} {i : Fin 64}

theorem has_base (other : some p ≠ s.owner) :
    (s.base p).has i ↔ ∃ held, s.members[p]? = some held ∧ (s.baseOf held).has i := by
  cases found : s.members[p]? with
  | none => simp [base_stranger other found]
  | some held => simp [base_member other found]

theorem has_effective (other : some p ≠ s.owner) :
    (s.effective p c).has i ↔ ∃ held, s.members[p]? = some held ∧ (s.effectiveOf held c).has i := by
  cases found : s.members[p]? with
  | none => simp [effective_stranger other found]
  | some held => simp [effective_member other found]

/-- What an author's and the person's own standing in `c`, and a plain
member's, add up to. -/
def channelBound (s : GroupState) (actor p : PublicKey) (c : String) : Permissions :=
  (s.effective p c).union ((s.effective actor c).union (s.effectiveOf ∅ c))

theorem SameRules.baseOf (same : SameRules s next) (held : BTreeSet String) :
    next.baseOf held = s.baseOf held := by
  unfold GroupState.baseOf rolePerms
  rw [same.roles]

theorem SameRules.effectiveOf (same : SameRules s next) (held : BTreeSet String) :
    next.effectiveOf held c = s.effectiveOf held c := by
  unfold GroupState.effectiveOf overridesOf
  rw [same.baseOf, same.overrides]

/-- Where a bit of someone's group-wide permissions comes from. -/
theorem has_baseOf_role {held : BTreeSet String} (holds : (s.baseOf held).has i) :
    ∃ r role, (r = defaultRole ∨ r ∈ held) ∧ s.roles[r]? = some role ∧
      (Permissions.mk role.perms).has i ∧ Permissions.all.has i := by
  obtain ⟨source, known⟩ := has_baseOf.mp holds
  rcases source with plain | ⟨r, member, given⟩
  · obtain ⟨role, found, bit⟩ := has_rolePerms.mp plain
    exact ⟨defaultRole, role, .inl rfl, found, bit, known⟩
  · obtain ⟨role, found, bit⟩ := has_rolePerms.mp given
    exact ⟨r, role, .inr member, found, bit, known⟩

theorem baseOf_of_role {held : BTreeSet String} {r : String} {role : RoleDef}
    (carried : r = defaultRole ∨ r ∈ held) (found : s.roles[r]? = some role)
    (bit : (Permissions.mk role.perms).has i) (known : Permissions.all.has i) :
    (s.baseOf held).has i := by
  refine has_baseOf.mpr ⟨?_, known⟩
  rcases carried with rfl | member
  · exact .inl (has_rolePerms.mpr ⟨role, found, bit⟩)
  · exact .inr ⟨r, member, has_rolePerms.mpr ⟨role, found, bit⟩⟩

/-! ### Group-wide -/

private theorem put_base {wanted : BTreeSet String} (checks : PutChecks s actor p wanted)
    (holds : (s.baseOf wanted).has i) :
    (s.base p).has i ∨ (s.base actor).has i ∨ (s.rolePerms defaultRole).has i := by
  obtain ⟨r, role, carried, found, bit, known⟩ := has_baseOf_role holds
  rcases carried with rfl | want
  · exact .inr (.inr (has_rolePerms.mpr ⟨role, found, bit⟩))
  · by_cases old : r ∈ (s.members[p]?).getD ∅
    · refine .inl ((has_base checks.not_owner).mpr ?_)
      cases here : s.members[p]? with
      | none => simp [here] at old
      | some held => exact ⟨held, rfl, baseOf_of_role (.inr (by simpa [here] using old)) found bit known⟩
    · obtain ⟨_, found', _, granted⟩ := checks.added r want old
      obtain rfl : role = _ := Option.some.inj (found.symm.trans found')
      exact .inr (.inl (granted i bit))

private theorem Moved.base_bound (moved : Moved s actor action next) (holds : (next.base p).has i) :
    (s.base p).has i ∨ (s.base actor).has i ∨ (s.rolePerms defaultRole).has i := by
  by_cases own : some p = s.owner
  · rw [base_owner (moved.rules.owner ▸ own)] at holds
    rw [base_owner own]
    exact .inl holds
  · have other : some p ≠ next.owner := moved.rules.owner ▸ own
    obtain ⟨held, found, given⟩ := (has_base other).mp holds
    rw [moved.rules.baseOf] at given
    cases moved.standing p with
    | same kept => exact .inl ((has_base own).mpr ⟨held, kept ▸ found, given⟩)
    | gone absent => simp [absent] at found
    | joined _ _ plain =>
      obtain rfl : held = ∅ := Option.some.inj (found.symm.trans plain)
      right; right
      simpa using (has_baseOf.mp given).1
    | put _ checks put =>
      obtain rfl : held = _ := Option.some.inj (found.symm.trans put)
      exact put_base checks given

private theorem Batch.base_bound (changed : Batch s actor next) (holds : (next.base p).has i) :
    (s.base p).has i ∨ (s.base actor).has i := by
  by_cases own : some p = s.owner
  · rw [base_owner (changed.owner ▸ own)] at holds
    rw [base_owner own]
    exact .inl holds
  · have other : some p ≠ next.owner := changed.owner ▸ own
    obtain ⟨kept, found, given⟩ := (has_base other).mp holds
    cases here : s.members[p]? with
    | none => simp [changed.stranger p here] at found
    | some held =>
      obtain ⟨kept', found', subset⟩ := changed.member p held here
      obtain rfl : kept = kept' := Option.some.inj (found.symm.trans found')
      obtain ⟨r, role, carried, defined, bit, known⟩ := has_baseOf_role given
      rcases changed.roles r role defined with old | ⟨_, fresh⟩
      · exact .inl ((has_base own).mpr ⟨held, here,
          baseOf_of_role (carried.imp_right (subset r)) old bit known⟩)
      · exact .inr (fresh.granted i bit)

/-- Whatever an action does, nobody ends with a group-wide permission that neither
they, nor its author, nor a plain member had. -/
theorem base_within [Nostr] {ev : Event} (ok : s.apply ev = (next, .ok ())) (p : PublicKey) :
    ((s.base p).union ((s.base ev.pubkey).union (s.rolePerms defaultRole))).contains (next.base p) = true := by
  obtain ⟨_, action, _, done⟩ := apply_ok ok
  refine Permissions.contains_iff.mpr fun i holds => ?_
  simp only [Permissions.has_union]
  rcases act_ok done with moved | ⟨batch, _, _, ran⟩
  · exact moved.base_bound holds
  · exact ((edits_ok ran).base_bound holds).imp_right .inl

/-- A group with a channel for its staff: a steward manages roles but is not let
in, and the one role that is let in is below the steward. -/
def staffSnapshot : Snapshot :=
  { firstSnapshot founder "club" false with
    channels := [{ id := "staff", name := "staff", kind := .text, slowmode := 0 }]
    overrides :=
      [{ channel := "staff", role := defaultRole, allow := 0, deny := Permissions.viewChannel.bits },
       { channel := "staff", role := "desk", allow := Permissions.viewChannel.bits, deny := 0 }]
    roles := defaultRoles ++ [{ id := "desk", name := "Desk", perms := 0, position := 5 }]
    members := .ofList
      [(founder, ∅), (steward, Std.ExtTreeSet.ofList ["admin"] compare), (guest, ∅)] }

def staffEvents : List Event :=
  staffSnapshot.sign club 100 ++ [(Draft.createGroup club).sign founder 100]

/-- The steward gives the guest the role that is let in. -/
def deskPut : Event := (Draft.putUser club guest ["desk"]).sign steward 110

private theorem deskPut_checked : ((start club staffEvents).any fun s =>
    decide (some deskPut.pubkey ≠ s.owner) && decide ((s.apply deskPut).2 = .ok ()) &&
      (s.channel "staff").isSome && ((s.apply deskPut).1.channel "staff").isSome &&
        ((s.apply deskPut).1.effective guest "staff").contains .viewChannel &&
          !(s.channelBound deskPut.pubkey guest "staff").contains
            ((s.apply deskPut).1.effective guest "staff")) = true := by
  decide +kernel

theorem base_within_deskPut : ∃ s next, Reached club staffEvents s ∧ some deskPut.pubkey ≠ s.owner ∧
    s.apply deskPut = (next, .ok ()) ∧ ((s.base guest).union ((s.base deskPut.pubkey).union
      (s.rolePerms defaultRole))).contains (next.base guest) = true := by
  obtain ⟨s, reached, facts⟩ := reached_of_start deskPut_checked
  simp only [Bool.and_eq_true, decide_eq_true_eq] at facts
  have accepted := apply_eq_of_ok facts.1.1.1.1.2
  exact ⟨s, _, reached, facts.1.1.1.1.1, accepted, base_within accepted guest⟩

/-! ### In a channel -/

/-- An override of `c` allows bit `i` to a role that `p` holds in `next` and not in `s`. -/
def NewlyAllowed (s next : GroupState) (p : PublicKey) (c : String) (i : Fin 64) : Prop :=
  ∃ o ∈ s.overrides, o.channel = c ∧ (Permissions.mk o.allow).has i ∧
    o.role ∈ (next.members[p]?).getD ∅ ∧ o.role ∉ (s.members[p]?).getD ∅

theorem effectiveOf_of_allows {held : BTreeSet String} {o : Override} (member : o ∈ s.overrides)
    (inChannel : o.channel = c) (carried : o.role = defaultRole ∨ o.role ∈ held)
    (bit : (Permissions.mk o.allow).has i) (isScoped : Permissions.channelScoped.has i)
    (known : Permissions.all.has i) : (s.effectiveOf held c).has i :=
  has_effectiveOf.mpr ⟨.inr ⟨isScoped, o, mem_overridesOf.mpr ⟨member, inChannel, carried⟩, bit⟩, known⟩

private theorem denies_default {held : BTreeSet String} (denied : s.Denies ∅ c i) : s.Denies held c i := by
  obtain ⟨isScoped, o, listed, bit⟩ := denied
  obtain ⟨member, inChannel, carried⟩ := mem_overridesOf.mp listed
  refine ⟨isScoped, o, mem_overridesOf.mpr ⟨member, inChannel, .inl ?_⟩, bit⟩
  simpa using carried

private theorem put_effective {wanted : BTreeSet String} (checks : PutChecks s actor p wanted)
    (given : next.members[p]? = some wanted) (holds : (s.effectiveOf wanted c).has i) :
    (s.channelBound actor p c).has i ∨ ((s.base p).has i ∨ (s.base actor).has i) ∨
      NewlyAllowed s next p c i := by
  simp only [channelBound, Permissions.has_union]
  obtain ⟨⟨based, open_⟩ | ⟨isScoped, o, listed, bit⟩, known⟩ := has_effectiveOf.mp holds
  · rcases put_base checks based with mine | theirs | plain
    · exact .inr (.inl (.inl mine))
    · exact .inr (.inl (.inr theirs))
    · refine .inl (.inr (.inr (has_effectiveOf.mpr ⟨.inl ⟨?_, ?_⟩, known⟩)))
      · exact has_baseOf.mpr ⟨.inl plain, known⟩
      · exact fun denied => open_ (denies_default denied)
  · obtain ⟨member, inChannel, carried⟩ := mem_overridesOf.mp listed
    rcases carried with plain | want
    · exact .inl (.inr (.inr (effectiveOf_of_allows member inChannel (.inl plain) bit isScoped known)))
    · by_cases old : o.role ∈ (s.members[p]?).getD ∅
      · refine .inl (.inl ((has_effective checks.not_owner).mpr ?_))
        cases here : s.members[p]? with
        | none => simp [here] at old
        | some held =>
          exact ⟨held, rfl, effectiveOf_of_allows member inChannel
            (.inr (by simpa [here] using old)) bit isScoped known⟩
      · exact .inr (.inr ⟨o, member, inChannel, bit, by simpa [given] using want, old⟩)

private theorem Moved.effective_bound (moved : Moved s actor action next)
    (holds : (next.effective p c).has i) :
    (s.channelBound actor p c).has i ∨
      (∃ roles, action = .put p roles) ∧
        (((s.base p).has i ∨ (s.base actor).has i) ∨ NewlyAllowed s next p c i) := by
  by_cases own : some p = s.owner
  · rw [effective_owner (moved.rules.owner ▸ own)] at holds
    left
    simp only [channelBound, Permissions.has_union]
    exact .inl (effective_owner own ▸ holds)
  · have other : some p ≠ next.owner := moved.rules.owner ▸ own
    obtain ⟨held, found, given⟩ := (has_effective other).mp holds
    rw [moved.rules.effectiveOf] at given
    cases moved.standing p with
    | same kept =>
      left
      simp only [channelBound, Permissions.has_union]
      exact .inl ((has_effective own).mpr ⟨held, kept ▸ found, given⟩)
    | gone absent => simp [absent] at found
    | joined _ _ plain =>
      obtain rfl : held = ∅ := Option.some.inj (found.symm.trans plain)
      left
      simp only [channelBound, Permissions.has_union]
      exact .inr (.inr given)
    | put asked checks put =>
      obtain rfl : held = _ := Option.some.inj (found.symm.trans put)
      exact (put_effective checks put given).imp_right fun rest => ⟨⟨_, asked⟩, rest⟩

private theorem Batch.effective_bound (changed : Batch s actor next)
    (holds : (next.effective p c).has i) :
    (s.channelBound actor p c).has i ∨ (s.base p).has i ∨ (s.base actor).has i := by
  simp only [channelBound, Permissions.has_union]
  by_cases own : some p = s.owner
  · rw [effective_owner (changed.owner ▸ own)] at holds
    exact .inl (.inl (effective_owner own ▸ holds))
  · have other : some p ≠ next.owner := changed.owner ▸ own
    obtain ⟨kept, found, given⟩ := (has_effective other).mp holds
    obtain ⟨⟨based, _⟩ | ⟨isScoped, o, listed, bit⟩, known⟩ := has_effectiveOf.mp given
    · exact .inr (changed.base_bound ((has_base other).mpr ⟨kept, found, based⟩))
    · obtain ⟨member, inChannel, carried⟩ := mem_overridesOf.mp listed
      rcases changed.overrides o member with old | fresh
      · cases here : s.members[p]? with
        | none => simp [changed.stranger p here] at found
        | some held =>
          obtain ⟨kept', found', subset⟩ := changed.member p held here
          obtain rfl : kept = kept' := Option.some.inj (found.symm.trans found')
          exact .inl (.inl ((has_effective own).mpr ⟨held, here, effectiveOf_of_allows old inChannel
            (carried.imp_right (subset _)) bit isScoped known⟩))
      · exact .inl (.inr (.inl (inChannel ▸ fresh.granted i bit)))

end HitEnter.Group.GroupState
