import HitEnter.Group.State
import HitEnter.Lib.Checks

/-! One action against one state. An action changes the state in place and may
be refused, so an outcome is the state afterwards together with the verdict:
a check before the first write leaves the state as it was, and `mute` is the
one action that still has a check to make after its first write. -/

namespace HitEnter.Group

open Wire Lib.Checks Lib.Text

/-- Names, ids and the like in a `9002`: at most this many characters. -/
def maxLabel : Nat := 64
def maxAbout : Nat := 280
def maxSlowmode : UInt32 := 6 * 60 * 60
def maxNewcomerWait : UInt32 := 24 * 60 * 60

/-- The state an action leaves behind, and the verdict on it. -/
abbrev Outcome := GroupState × Except Refusal Unit

namespace GroupState

/-- Write only once every check has passed. -/
def checked (s : GroupState) (check : Except Refusal α) (write : α → GroupState) : Outcome :=
  match check with
  | .error refusal => (s, .error refusal)
  | .ok value => (write value, .ok ())

def silence (s : GroupState) (who : PublicKey) (since : Timestamp) (until_ : Option Timestamp)
    (mute : Bool) : GroupState :=
  { s with silences := s.silences ++ [{ who, since, until_, mute }] }

/-- `who` is a member again from `date`: their open removal span ends. -/
def letBackIn (s : GroupState) (who : PublicKey) (date : Timestamp) : GroupState :=
  { s with silences := s.silences.map fun span =>
      if span.who = who ∧ span.mute = false ∧ span.until_ = none then { span with until_ := some date }
      else span }

/-- The mute spans of `target` that cover `date` end there. -/
def endMutes (s : GroupState) (target : PublicKey) (date : Timestamp) : GroupState :=
  { s with silences := s.silences.map fun span =>
      if span.who = target ∧ span.mute = true ∧ span.covers date then { span with until_ := some date }
      else span }

/-! ### Put -/

/-- The roles in one set but not the other, in order. -/
def symmetricDifference (wanted held : BTreeSet String) : List String :=
  (wanted ∪ held).toList.filter fun r => wanted.contains r != held.contains r

/-- One role added or taken away, and what adding it grants. -/
def grantRole (s : GroupState) (actor : PublicKey) (wanted : BTreeSet String)
    (granting : Permissions) (r : String) : Except Refusal Permissions := do
  let role ← orRefuse s.roles[r]? Refusal.unknownRole
  refuseIf (!s.outranksRole actor role) .outranked
  return if wanted.contains r then granting.union ⟨role.perms⟩ else granting

def checkNewcomer (s : GroupState) (actor target : PublicKey) : Except Refusal Unit :=
  if s.members.contains target then .ok ()
  else do
    refuseIf (s.bans.contains target) Refusal.banned
    s.require actor .createInvite

def checkRoleChange (s : GroupState) (actor target : PublicKey) (wanted : BTreeSet String) :
    Except Refusal Unit :=
  if wanted = (s.members[target]?).getD ∅ then .ok ()
  else do
    s.require actor .manageRoles
    refuseIf (s.members.contains target && !s.outranks actor target) .outranked
    let granting ← (symmetricDifference wanted ((s.members[target]?).getD ∅)).foldlM
      (s.grantRole actor wanted) Permissions.none
    refuseIf (!s.canGrant actor granting) .cannotGrant

def checkPut (s : GroupState) (actor target : PublicKey) (roles : BTreeSet String) :
    Except Refusal (BTreeSet String) := do
  s.requireMember actor
  refuseIf (some target == s.owner) .theOwner
  let wanted := roles.filter (· != defaultRole)
  refuseIf (wanted.toList.any fun r => r == ownerMark || !s.roles.contains r) .unknownRole
  s.checkNewcomer actor target
  s.checkRoleChange actor target wanted
  return wanted

def applyPut (s : GroupState) (actor : PublicKey) (date : Timestamp) (target : PublicKey)
    (roles : BTreeSet String) : Outcome :=
  s.checked (s.checkPut actor target roles) fun wanted =>
    let s := if s.members.contains target then s else s.letBackIn target date
    { s with members := s.members.insert target wanted }

/-! ### Remove, unban, mute -/

def checkRemove (s : GroupState) (actor target : PublicKey) (ban : Bool) : Except Refusal Unit := do
  s.requireMember actor
  refuseIf (some target == s.owner) .theOwner
  refuseIf (!s.members.contains target && !ban) .notAMember
  s.require actor (if ban then .banMembers else .kickMembers)
  refuseIf (!s.outranks actor target) .outranked

/-- A ban silences its target from its date on, member or not. -/
def applyRemove (s : GroupState) (actor : PublicKey) (date : Timestamp) (target : PublicKey)
    (ban : Bool) : Outcome :=
  s.checked (s.checkRemove actor target ban) fun _ =>
    let member := s.members.contains target
    let s := if member then
        { s with
          members := s.members.erase target
          mutes := s.mutes.erase target
          joined := s.joined.erase target }
      else s
    let s := if member || ban then s.silence target date none false else s
    if ban then { s with bans := s.bans.insert target } else s

def checkUnban (s : GroupState) (actor target : PublicKey) : Except Refusal Unit := do
  s.requireMember actor
  s.require actor .banMembers
  refuseIf (!s.bans.contains target) .notBanned

def applyUnban (s : GroupState) (actor target : PublicKey) : Outcome :=
  s.checked (s.checkUnban actor target) fun _ => { s with bans := s.bans.erase target }

def checkMute (s : GroupState) (actor target : PublicKey) : Except Refusal Unit := do
  s.requireMember actor
  refuseIf (some target == s.owner) .theOwner
  refuseIf (!s.members.contains target) .notAMember
  s.require actor .muteMembers
  refuseIf (!s.outranks actor target) .outranked

/-- The running mute ends before it is known whether the new end is one. -/
def applyMute (s : GroupState) (actor : PublicKey) (date : Timestamp) (target : PublicKey)
    (until_ : Option Timestamp) : Outcome :=
  match s.checkMute actor target with
  | .error refusal => (s, .error refusal)
  | .ok () =>
    let s := s.endMutes target date
    match until_ with
    | some u =>
      if date < u then
        ({ s with mutes := s.mutes.insert target u }.silence target date (some u) true, .ok ())
      else (s, .error .malformed)
    | none =>
      if s.mutes.contains target then ({ s with mutes := s.mutes.erase target }, .ok ())
      else (s, .error .notMuted)

/-! ### Edit -/

def label (text : String) : Except Refusal Unit :=
  refuseIf ((trim text).toList.length == 0 || maxLabel < (trim text).toList.length) .badEdit

/-- The first channel with that id is replaced; a new one goes to the end. -/
def putChannel (c : Channel) : List Channel → List Channel
  | [] => [c]
  | x :: rest => if x.id = c.id then c :: rest else x :: putChannel c rest

/-- Only what a channel can change survives in an override. -/
def scopedBits (bits : UInt64) : UInt64 :=
  ((Permissions.mk bits).sanitized.intersection .channelScoped).bits

def scopedOverride (o : Override) : Override := { o with allow := scopedBits o.allow, deny := scopedBits o.deny }

/-- The override of a channel and role is replaced; an empty one is dropped. -/
def putOverride (o : Override) (overrides : List Override) : List Override :=
  (overrides.filter fun x => !(x.channel == o.channel && x.role == o.role)) ++
    if o.allow ≠ 0 ∨ o.deny ≠ 0 then [o] else []

def sanitizedRole (r : RoleDef) : RoleDef := { r with perms := (Permissions.mk r.perms).sanitized.bits }

/-- The default role is the owner's alone and stays at the bottom; any other
must be below the actor before and after. -/
def checkRolePlace (s : GroupState) (actor : PublicKey) (r : RoleDef) : Except Refusal Unit :=
  if r.id = defaultRole then do
    refuseIf (some actor != s.owner) Refusal.notTheOwner
    refuseIf (r.position != 0) .badEdit
  else do
    refuseIf (r.position ≤ 0) Refusal.badEdit
    refuseIf ((s.roles[r.id]?).any fun old => !s.outranksRole actor old) .outranked
    refuseIf (!s.outranksRole actor r) .outranked

/-- One edit of a `9002`, checked against `before`, the state the whole batch
is judged by, and applied to `next`. -/
def edit (next before : GroupState) (actor : PublicKey) : Edit → Except Refusal GroupState
  | .name n => do
    before.require actor .manageGroup
    label n
    return { next with name := trim n }
  | .isPublic isPublic => do
    refuseIf (some actor != before.owner) .notTheOwner
    return { next with isPublic := isPublic }
  | .newcomerWait secs => do
    before.require actor .manageChannels
    refuseIf (maxNewcomerWait < secs) .badEdit
    return { next with newcomerWait := secs }
  | .about a => do
    before.require actor .manageGroup
    refuseIf (maxAbout < (trim a).toList.length) .badEdit
    return { next with about := trim a }
  | .channel c => do
    before.require actor .manageChannels
    label c.id
    label c.name
    refuseIf (maxSlowmode < c.slowmode) .badEdit
    return { next with channels := putChannel c next.channels }
  | .channelDelete id => do
    before.require actor .manageChannels
    refuseIf (!next.channels.any (·.id == id)) .noSuchChannel
    return { next with
      channels := next.channels.filter (·.id != id)
      overrides := next.overrides.filter (·.channel != id) }
  | .override o => do
    before.require actor .manageRoles
    refuseIf (!next.channels.any (·.id == o.channel)) .noSuchChannel
    let role ← orRefuse before.roles[o.role]? .unknownRole
    refuseIf (!before.outranksRole actor role) .outranked
    let o := scopedOverride o
    refuseIf (!((Permissions.mk o.allow).beyond (before.effective actor o.channel)).isEmpty) .cannotGrant
    return { next with overrides := putOverride o next.overrides }
  | .role r => do
    before.require actor .manageRoles
    label r.id
    label r.name
    refuseIf (r.id == ownerMark) .badEdit
    let r := sanitizedRole r
    before.checkRolePlace actor r
    refuseIf (!before.canGrant actor ⟨r.perms⟩) .cannotGrant
    return { next with roles := next.roles.insert r.id r }
  | .roleDelete id => do
    before.require actor .manageRoles
    refuseIf (id == defaultRole) .badEdit
    let role ← orRefuse before.roles[id]? .unknownRole
    refuseIf (!before.outranksRole actor role) .outranked
    return { next with
      roles := next.roles.erase id
      members := next.members.map fun _ held => held.erase id
      overrides := next.overrides.filter (·.role != id) }

/-- Every edit of a batch, on a copy. -/
def edits (s : GroupState) (actor : PublicKey) (batch : List Edit) : Except Refusal GroupState :=
  batch.foldlM (fun next e => next.edit s actor e) s

def applyEdit (s : GroupState) (actor : PublicKey) (batch : List Edit) : Outcome :=
  s.checked (do s.requireMember actor; s.edits actor batch) fun next => next

/-! ### Join and leave -/

/-- Does `invite` admit at `date`? -/
def honouredBy (s : GroupState) (date : Timestamp) (invite : Invite) : Bool :=
  invite.createdAt ≤ date && (invite.expires.all fun e => date ≤ e) &&
    (s.base invite.author).contains .createInvite

/-- Without a code, a public group's open door as it stands at this point. -/
def honours (s : GroupState) (code : Option String) (date : Timestamp) : Bool :=
  match code with
  | none => s.isPublic
  | some code => (s.invites[code]?).any fun invites => invites.any (s.honouredBy date)

def checkJoin (s : GroupState) (actor : PublicKey) (date : Timestamp) (code : Option String) :
    Except Refusal Unit := do
  refuseIf (s.members.contains actor) .alreadyAMember
  refuseIf (!s.honours code date) .noSuchInvite
  refuseIf (s.bans.contains actor) .banned

def applyJoin (s : GroupState) (actor : PublicKey) (date : Timestamp) (code : Option String) : Outcome :=
  s.checked (s.checkJoin actor date code) fun _ =>
    let s := s.letBackIn actor date
    { s with members := s.members.insert actor ∅, joined := s.joined.insert actor date }

def checkLeave (s : GroupState) (actor : PublicKey) : Except Refusal Unit := do
  refuseIf (some actor == s.owner) .theOwner
  refuseIf (!s.members.contains actor) .notAMember

def applyLeave (s : GroupState) (actor : PublicKey) (date : Timestamp) : Outcome :=
  s.checked (s.checkLeave actor) fun _ =>
    { s with
      members := s.members.erase actor
      mutes := s.mutes.erase actor
      joined := s.joined.erase actor }.silence actor date none false

/-- An action against the state, once read. An invite is a credential the fold
records, never applied. -/
def act (s : GroupState) (actor : PublicKey) (date : Timestamp) : Action → Outcome
  | .put target roles => s.applyPut actor date target roles
  | .remove target ban => s.applyRemove actor date target ban
  | .unban target => s.applyUnban actor target
  | .mute target until_ => s.applyMute actor date target until_
  | .edit batch => s.applyEdit actor batch
  | .join code => s.applyJoin actor date code
  | .leave => s.applyLeave actor date
  | .invite _ _ => (s, .error .malformed)

/-- Applies one action if it is valid against the current state. -/
def apply [Nostr] (s : GroupState) (ev : Event) : Outcome :=
  match parseAction ev with
  | none => (s, .error .malformed)
  | some (_, action) => s.act ev.pubkey ev.createdAt action

end GroupState

end HitEnter.Group
