import HitEnter.Group.Batches
import HitEnter.Group.Escalation
import HitEnter.Group.Invariant

/-! Overrides and what they name. An override of a state names a channel and a
role of it, as long as no batch writes one for a role it has already deleted:
roles are looked up in the state before the batch, channels in the batch's own. -/

namespace HitEnter.Group

open Wire

/-- Every override names a channel and a role that are there. -/
def GroupState.Linked (s : GroupState) : Prop :=
  ∀ o ∈ s.overrides, (∃ c ∈ s.channels, c.id = o.channel) ∧ o.role ∈ s.roles

/-- Every override of the snapshot names a channel and a role of it; what is named
like the owner's marker is no role. -/
def Winners.Linked (w : Winners) : Prop :=
  ∀ o ∈ w.overrides, (∃ c ∈ w.channels, c.id = o.channel) ∧ o.role ≠ ownerMark ∧ ∃ r ∈ w.roles, r.id = o.role

instance (s : GroupState) : Decidable s.Linked :=
  inferInstanceAs (Decidable (∀ o ∈ s.overrides, (∃ c ∈ s.channels, c.id = o.channel) ∧ o.role ∈ s.roles))

instance (w : Winners) : Decidable w.Linked :=
  inferInstanceAs (Decidable (∀ o ∈ w.overrides,
    (∃ c ∈ w.channels, c.id = o.channel) ∧ o.role ≠ ownerMark ∧ ∃ r ∈ w.roles, r.id = o.role))

/-! ### The start -/

private theorem mem_foldl_addRole {rows : List RoleDef} {roles : BTreeMap String RoleDef} {q : String}
    (named : q ∈ roles ∨ q ≠ ownerMark ∧ ∃ r ∈ rows, r.id = q) : q ∈ rows.foldl addRole roles := by
  induction rows generalizing roles with
  | nil => simpa using named
  | cons r rest ih =>
    refine ih ?_
    unfold addRole
    rcases named with there | ⟨other, row, member, same⟩
    · left
      split
      · exact there
      · simp [Std.ExtTreeMap.mem_insert, there]
    · rcases List.mem_cons.mp member with rfl | later
      · left
        rw [if_neg (same ▸ other)]
        simp [Std.ExtTreeMap.mem_insert, same]
      · exact .inr ⟨other, row, later, same⟩

theorem Winners.linked_state {w : Winners} (linked : w.Linked) (group : PublicKey)
    (creators : BTreeSet PublicKey) : (w.state group creators).Linked := by
  intro o member
  obtain ⟨channel, other, role⟩ := linked o member
  refine ⟨channel, ?_⟩
  have listed : o.role ∈ w.roles.foldl addRole ∅ := mem_foldl_addRole (.inr ⟨other, role⟩)
  change o.role ∈ withDefaultRole _
  unfold withDefaultRole
  split
  · exact listed
  · simp [Std.ExtTreeMap.mem_insert, listed]

namespace GroupState

variable {s next : GroupState} {actor p : PublicKey} {batch : List Edit}

/-! ### Channels -/

private theorem ids_putChannel {c : Channel} {channels : List Channel} {id : String}
    (there : ∃ x ∈ channels, x.id = id) : ∃ x ∈ putChannel c channels, x.id = id := by
  induction channels with
  | nil => simp at there
  | cons x rest ih =>
    obtain ⟨y, member, same⟩ := there
    unfold putChannel
    split
    · rename_i replaced
      rcases List.mem_cons.mp member with rfl | later
      · exact ⟨c, List.mem_cons_self, replaced ▸ same⟩
      · exact ⟨y, List.mem_cons_of_mem c later, same⟩
    · rcases List.mem_cons.mp member with rfl | later
      · exact ⟨y, List.mem_cons_self, same⟩
      · obtain ⟨z, inRest, same'⟩ := ih ⟨y, later, same⟩
        exact ⟨z, List.mem_cons_of_mem x inRest, same'⟩

/-- Channels are looked up in the batch's own state, so no edit leaves an override
without one. -/
theorem edits_channels (ok : s.edits actor batch = .ok next)
    (named : ∀ o ∈ s.overrides, ∃ c ∈ s.channels, c.id = o.channel) :
    ∀ o ∈ next.overrides, ∃ c ∈ next.channels, c.id = o.channel := by
  refine edits_invariant (fun next => ∀ o ∈ next.overrides, ∃ c ∈ next.channels, c.id = o.channel)
    ok named ?_
  intro before e after _ edited named o member
  cases edited with
  | channel => exact ids_putChannel (named o member)
  | channelDelete listed =>
    obtain ⟨old, other⟩ := List.mem_filter.mp member
    obtain ⟨c, there, same⟩ := named o old
    exact ⟨c, List.mem_filter.mpr ⟨there, by simpa [same] using other⟩, same⟩
  | override listed given =>
    rcases mem_putOverride member with old | rfl
    · exact named o old
    · simpa [scopedOverride] using listed
  | roleDelete => exact named o (List.mem_filter.mp member).1
  | _ => exact named o member

/-! ### Roles -/

/-- An edit that takes away or replaces the override of that channel and role. -/
def clears (o : Override) : Edit → Bool
  | .override other => o.channel == other.channel && o.role == other.role
  | .channelDelete id => o.channel == id
  | .roleDelete id => o.role == id
  | _ => false

/-- The batch writes `o`, not an empty one, and nothing in it clears it again. -/
def Writes (batch : List Edit) (o : Override) : Prop :=
  ∃ front back, batch = front ++ .override o :: back ∧
    ((scopedOverride o).allow ≠ 0 ∨ (scopedOverride o).deny ≠ 0) ∧ ∀ e ∈ back, clears o e = false

/-- The batch leaves an override for a role it leaves deleted. -/
def Dangles (batch : List Edit) : Prop := ∃ o, Writes batch o ∧ lastSaid (roleEdit o.role) batch = some none

private theorem Writes.snoc {done : List Edit} {o : Override} {e : Edit} (writes : Writes done o)
    (keeps : clears o e = false) : Writes (done ++ [e]) o := by
  obtain ⟨front, back, rfl, some, clear⟩ := writes
  refine ⟨front, back ++ [e], by simp, some, fun e' member => ?_⟩
  rcases List.mem_append.mp member with old | last
  · exact clear e' old
  · rwa [List.mem_singleton.mp last]

/-- An override either was there and its role has not been deleted since, or the
edits so far write it. -/
private def Accounted (s : GroupState) (done : List Edit) (next : GroupState) : Prop :=
  ∀ o ∈ next.overrides, o ∈ s.overrides ∧ Edit.roleDelete o.role ∉ done ∨
    ∃ written, scopedOverride written = o ∧ Writes done written ∧ o.role ∈ s.roles

private theorem accounted (ok : s.edits actor batch = .ok next) : Accounted s batch next := by
  refine edits_history (Accounted s) ok (fun o member => .inl ⟨member, by simp⟩) ?_
  intro done before e after edited so_far o member
  have carried (old : o ∈ before.overrides) (keeps : clears o e = false) :
      o ∈ s.overrides ∧ Edit.roleDelete o.role ∉ done ++ [e] ∨
        ∃ written, scopedOverride written = o ∧ Writes (done ++ [e]) written ∧ o.role ∈ s.roles := by
    rcases so_far o old with ⟨initial, kept⟩ | ⟨written, rfl, writes, defined⟩
    · refine .inl ⟨initial, ?_⟩
      simp only [List.mem_append, List.mem_singleton, not_or]
      refine ⟨kept, ?_⟩
      rintro rfl
      simp [clears] at keeps
    · exact .inr ⟨written, rfl, writes.snoc keeps, defined⟩
  cases edited with
  | channelDelete listed =>
    obtain ⟨old, other⟩ := List.mem_filter.mp member
    exact carried old (by simpa [clears] using other)
  | roleDelete other defined =>
    obtain ⟨old, apart⟩ := List.mem_filter.mp member
    exact carried old (by simpa [clears] using apart)
  | override listed given =>
    rename_i written
    rcases List.mem_append.mp member with old | fresh
    · obtain ⟨old, other⟩ := List.mem_filter.mp old
      exact carried old (by simpa only [clears, scopedOverride, Bool.not_eq_true'] using other)
    · split at fresh
      · rename_i nonempty
        obtain rfl := List.mem_singleton.mp fresh
        obtain ⟨role, found, _⟩ := given.defined
        exact .inr ⟨written, rfl, ⟨done, [], by simp, nonempty, by simp⟩,
          Std.ExtTreeMap.mem_iff_isSome_getElem?.mpr (by simp [found])⟩
      · cases fresh
  | name => exact carried member rfl
  | isPublic => exact carried member rfl
  | newcomerWait => exact carried member rfl
  | about => exact carried member rfl
  | channel => exact carried member rfl
  | role => exact carried member rfl

/-- A batch that leaves no override for a role it leaves deleted keeps every
override linked. -/
theorem edits_linked (ok : s.edits actor batch = .ok next) (tidy : ¬ Dangles batch)
    (linked : s.Linked) : next.Linked := by
  intro o member
  refine ⟨edits_channels ok (fun o member => (linked o member).1) o member, ?_⟩
  have role := edits_roles ok o.role
  rw [Std.ExtTreeMap.mem_iff_isSome_getElem?, role]
  cases last : lastSaid (roleEdit o.role) batch with
  | none =>
    have defined : o.role ∈ s.roles := by
      rcases accounted ok o member with ⟨initial, _⟩ | ⟨_, _, _, defined⟩
      · exact (linked o initial).2
      · exact defined
    exact Std.ExtTreeMap.mem_iff_isSome_getElem?.mp defined
  | some said =>
    cases said with
    | some role => rfl
    | none =>
      rcases accounted ok o member with ⟨_, kept⟩ | ⟨written, rfl, writes, _⟩
      · exact absurd (roleDelete_of_lastSaid last) kept
      · exact absurd ⟨written, writes, last⟩ tidy

end GroupState

section Run
variable [Nostr] {group : PublicKey} {events : List Event} {s : GroupState}

end Run

/-- The staff's group after its desk role is deleted. -/
def closedDesk : List Event :=
  GroupState.staffEvents ++ [(Draft.editMetadata club [.roleDelete "desk"]).sign founder 110]

/-- The event writes no override. -/
private def writesNone (ev : Event) : Bool :=
  match parseAction ev with
  | some (_, .edit batch) => batch.all fun
    | .override _ => false
    | _ => true
  | _ => true

/-- The role of the staff channel is deleted, and given an override in the same batch. -/
def deskDeleted : Event :=
  (Draft.editMetadata club [.roleDelete "desk",
    .override { channel := "staff", role := "desk", allow := 1, deny := 0 }]).sign founder 110

end HitEnter.Group
