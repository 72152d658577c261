import HitEnter.Wire.Build
import HitEnter.Wire.Plain

/-! What a builder of an action is given is read back from the event it builds. -/

namespace HitEnter.Wire

open Lib.Decimal

/-- A builder, and what it is given besides the group. -/
inductive ActionBuilder where
  | putUser (target : PublicKey) (roles : List String)
  | removeUser (target : PublicKey)
  | banUser (target : PublicKey)
  | unbanUser (target : PublicKey)
  | muteUser (target : PublicKey) (until_ : Option Timestamp)
  | editMetadata (edits : List Edit)
  | createInvite (code : String) (expires : Option Timestamp)
  | join (code : String)
  | joinPublic
  | leave

namespace ActionBuilder

/-- What it says. -/
def action : ActionBuilder → Action
  | putUser target roles => .put target (.ofList roles)
  | removeUser target => .remove target false
  | banUser target => .remove target true
  | unbanUser target => .unban target
  | muteUser target until_ => .mute target until_
  | editMetadata edits => .edit edits
  | createInvite code expires => .invite code expires
  | join code => .join (some code)
  | joinPublic => .join none
  | leave => .leave

/-- There is an edit, and no mute ends in second 0, which lifts one. -/
def Given : ActionBuilder → Prop
  | editMetadata edits => edits ≠ []
  | muteUser _ until_ => until_ ≠ some 0
  | _ => True

variable [Nostr]

def draft (group : PublicKey) : ActionBuilder → Draft
  | putUser target roles => .putUser group target roles
  | removeUser target => .removeUser group target
  | banUser target => .banUser group target
  | unbanUser target => .unbanUser group target
  | muteUser target until_ => .muteUser group target until_
  | editMetadata edits => .editMetadata group edits
  | createInvite code expires => .createInvite group code expires
  | join code => .join group code
  | joinPublic => .joinPublic group
  | leave => .leave group

end ActionBuilder

/-! ### Edits -/

theorem Edit.parse_toTag (edit : Edit) : Edit.parse edit.toTag = some (some edit) := by
  cases edit with
  | isPublic isPublic => cases isPublic <;> rfl
  | newcomerWait secs => simp [Edit.toTag, Edit.parse]
  | channel c =>
    have kind : ChannelKind.parse c.kind.asStr = some c.kind := by cases c.kind <;> rfl
    simp [Edit.toTag, Edit.parse, channelTag, parseChannel, kind]
  | override o => simp [Edit.toTag, Edit.parse, overrideTag, parseOverride]
  | role r => simp [Edit.toTag, Edit.parse, roleTag, parseRole]
  | _ => rfl

private theorem edits_read (edits acc : List Edit) :
    (edits.map Edit.toTag).foldlM (fun edits tag => (Edit.parse tag).map fun e => edits ++ e.toList) acc =
      some (acc ++ edits) := by
  induction edits generalizing acc with
  | nil => simp
  | cons edit rest ih => simp [Edit.parse_toTag, ih]

section Read
variable [Nostr] {group person : PublicKey} {date : Timestamp} {kind : Kind}

/-- The group's own row is no edit. -/
theorem parseEdits_built (edits : List Edit) : parseEdits (Draft.h group :: edits.map Edit.toTag) = some edits := by
  have row : Edit.parse (Draft.h group) = some none := rfl
  simp [parseEdits, row, edits_read]

/-! ### Actions -/

/-- The first row of every action says its group. -/
theorem groupOf_sign (rows : List Tag) (inGroup : actionKinds.contains kind = true) :
    groupOf ((⟨kind, Draft.h group :: rows⟩ : Draft).sign person date) = some group := by
  have noState : stateKinds.contains kind = false := by
    simp only [actionKinds, List.contains_cons, List.contains_nil, Bool.or_false, Bool.or_eq_true, beq_iff_eq] at inGroup
    obtain rfl | rfl | rfl | rfl | rfl | rfl | rfl := inGroup <;> rfl
  have known : isGroupKind kind = true := by rw [isGroupKind, inGroup, Bool.or_true]
  change (if stateKinds.contains kind then _ else if !isGroupKind kind then none else _) = _
  rw [noState, known]
  simp [Draft.sign, signed, firstValue, Draft.h]

/-- Whatever a builder is given, that is what its event reads as. -/
theorem parseAction_draft (builder : ActionBuilder) (given : builder.Given) :
    parseAction ((builder.draft group).sign person date) = some (group, builder.action) := by
  have own : groupOf ((builder.draft group).sign person date) = some group := by
    cases builder <;> exact groupOf_sign _ rfl
  have removes : removeUser ≠ putUser := by decide
  have mutes : muteUser ≠ putUser ∧ muteUser ≠ removeUser := by decide
  have edits : editMetadata ≠ putUser ∧ editMetadata ≠ removeUser ∧ editMetadata ≠ muteUser := by decide
  have invites : createInvite ≠ putUser ∧ createInvite ≠ removeUser ∧ createInvite ≠ muteUser ∧
      createInvite ≠ editMetadata := by decide
  have joins : join ≠ putUser ∧ join ≠ removeUser ∧ join ≠ muteUser ∧ join ≠ editMetadata ∧ join ≠ createInvite := by
    decide
  have leaves : leave ≠ putUser ∧ leave ≠ removeUser ∧ leave ≠ muteUser ∧ leave ≠ editMetadata ∧
      leave ≠ createInvite ∧ leave ≠ join := by decide
  simp only [parseAction, own, Option.bind_eq_bind, Option.bind_some]
  simp only [Draft.sign, signed, actionTarget, firstValue]
  cases builder with
  | putUser target roles => simp [ActionBuilder.draft, ActionBuilder.action, Draft.putUser, Draft.h]
  | removeUser target => simp [ActionBuilder.draft, ActionBuilder.action, Draft.removeUser, Draft.h, removes]
  | banUser target => simp [ActionBuilder.draft, ActionBuilder.action, Draft.banUser, Draft.removeUser, Draft.h, removes]
  | unbanUser target =>
    simp [ActionBuilder.draft, ActionBuilder.action, Draft.unbanUser, Draft.removeUser, Draft.h, removes]
  | muteUser target until_ =>
    cases until_ with
    | none =>
      have lifted : parseU64 (Nat.repr 0) = some 0 := parseU64_repr 0
      simp [ActionBuilder.draft, ActionBuilder.action, Draft.muteUser, Draft.h, mutes, lifted]
    | some date =>
      have positive : 0 < date.secs := UInt64.pos_iff_ne_zero.mpr fun zero => given (congrArg (some ∘ Timestamp.mk) zero)
      simp [ActionBuilder.draft, ActionBuilder.action, Draft.muteUser, Draft.h, mutes, positive]
  | editMetadata batch =>
    have some_ : batch ≠ [] := given
    simp [ActionBuilder.draft, ActionBuilder.action, Draft.editMetadata, edits, parseEdits_built, some_]
  | createInvite code expires =>
    cases expires <;> simp [ActionBuilder.draft, ActionBuilder.action, Draft.createInvite, Draft.h, invites]
  | join code => simp [ActionBuilder.draft, ActionBuilder.action, Draft.join, Draft.h, joins]
  | joinPublic => simp [ActionBuilder.draft, ActionBuilder.action, Draft.joinPublic, Draft.h, joins]
  | leave => simp [ActionBuilder.draft, ActionBuilder.action, Draft.leave, Draft.h, leaves]

end Read

theorem parseAction_draft_clubRenamed :
    parseAction ((ActionBuilder.draft club (.editMetadata [.name "club", .isPublic true])).sign founder 200) =
      some (club, .edit [.name "club", .isPublic true]) :=
  parseAction_draft (.editMetadata [.name "club", .isPublic true]) (List.cons_ne_nil _ _)

end HitEnter.Wire
