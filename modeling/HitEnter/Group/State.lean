import HitEnter.Group.Perm
import HitEnter.Lib.Text

/-! A group's state and the questions answered from it. The state is one flat
record, as every peer holding the same events computes it; how it is computed
is `Fold`, how one action changes it is `Apply`. -/

namespace HitEnter.Group

open Wire

/-- Why a peer or an event was refused. -/
inductive Refusal where
  | notAMember
  | alreadyAMember
  | kindNotCarried (kind : Kind)
  | groupNotCarried
  | noState
  | notSignedByGroup
  | malformed
  | noSuchChannel
  | lacks (needed : Permissions)
  | theOwner
  | notTheOwner
  | outranked
  | cannotGrant
  | unknownRole
  | noSuchInvite
  | folded
  | notApplied
  | fromTheFuture
  | stale
  | banned
  | notBanned
  | muted
  | notMuted
  | badEdit
  | tooSoon (wait : UInt32)
  | newcomer (left : UInt32)
  | notOurs
  | tooLarge
deriving DecidableEq

/-- The position of a member's highest role, for the escalation rule. -/
structure Rank where
  position : Int64

def Rank.toInt (rank : Rank) : Int := rank.position.toInt

theorem Rank.toInt_injective : Function.Injective Rank.toInt := by
  rintro ⟨a⟩ ⟨b⟩ same
  simpa [Rank.toInt, Int64.toInt_inj] using same

instance : LinearOrder Rank := LinearOrder.lift' Rank.toInt Rank.toInt_injective

/-- A member with only the default role. -/
def Rank.floor : Rank := ⟨Int64.minValue⟩

theorem Rank.floor_le (rank : Rank) : Rank.floor ≤ rank := by
  change Int64.minValue.toInt ≤ rank.position.toInt
  exact Int64.minValue_le_toInt _

/-- A span in which a person's messages and reactions are not valid. -/
structure Silence where
  who : PublicKey
  since : Timestamp
  until_ : Option Timestamp
  mute : Bool
deriving DecidableEq

def Silence.covers (silence : Silence) (date : Timestamp) : Bool :=
  silence.since ≤ date && silence.until_.all fun u => date < u

structure Invite where
  author : PublicKey
  createdAt : Timestamp
  expires : Option Timestamp
deriving DecidableEq

/-- One group, as every peer holding the same events computes it. -/
structure GroupState where
  id : PublicKey
  seq : UInt64
  cutoff : Timestamp
  name : String
  isPublic : Bool
  newcomerWait : UInt32
  about : String
  joined : BTreeMap PublicKey Timestamp
  owner : Option PublicKey
  namedOwner : Option PublicKey
  channels : List Channel
  overrides : List Override
  roles : BTreeMap String RoleDef
  members : BTreeMap PublicKey (BTreeSet String)
  invites : BTreeMap String (List Invite)
  applied : BTreeSet EventId
  bans : BTreeSet PublicKey
  mutes : BTreeMap PublicKey Timestamp
  silences : List Silence

namespace GroupState

def isMember (s : GroupState) (p : PublicKey) : Bool := s.members.contains p

def channel (s : GroupState) (id : String) : Option Channel := s.channels.find? (·.id == id)

/-- What a role grants, when it is defined. -/
def rolePerms (s : GroupState) (role : String) : Permissions :=
  (s.roles[role]?).elim .none fun r => ⟨r.perms⟩

/-- What holding `held` and the default role grants, group-wide. -/
def baseOf (s : GroupState) (held : BTreeSet String) : Permissions :=
  ((defaultRole :: held.toList).foldl (fun perms r => perms.union (s.rolePerms r))
    Permissions.none).sanitized

/-- Group-wide permissions, before any channel override. A non-member holds nothing. -/
def base (s : GroupState) (p : PublicKey) : Permissions :=
  if some p = s.owner then .all
  else match s.members[p]? with
    | none => .none
    | some held => s.baseOf held

/-- The overrides of `channel` that someone holding `held` is under. -/
def overridesOf (s : GroupState) (held : BTreeSet String) (channel : String) : List Override :=
  s.overrides.filter fun o => o.channel == channel && (o.role == defaultRole || held.contains o.role)

/-- What holding `held` and the default role grants in `channel`: an allow from
one role is never cancelled by a deny from another. -/
def effectiveOf (s : GroupState) (held : BTreeSet String) (channel : String) : Permissions :=
  let allow := (s.overridesOf held channel).foldl (fun bits o => bits.union ⟨o.allow⟩) Permissions.none
  let deny := (s.overridesOf held channel).foldl (fun bits o => bits.union ⟨o.deny⟩) Permissions.none
  (((s.baseOf held).without (deny.intersection .channelScoped)).union
    (allow.intersection .channelScoped)).sanitized

def effective (s : GroupState) (p : PublicKey) (channel : String) : Permissions :=
  if some p = s.owner then .all
  else match s.members[p]? with
    | none => .none
    | some held => s.effectiveOf held channel

/-- The highest position among the roles held. -/
def rankOf (s : GroupState) (held : BTreeSet String) : Rank :=
  (held.toList.filterMap fun r => (s.roles[r]?).map fun role => Rank.mk role.position).max?.getD
    Rank.floor

def rank (s : GroupState) (p : PublicKey) : Rank := (s.members[p]?).elim Rank.floor s.rankOf

/-- May `actor` act on `target`? The owner check comes first: nobody acts on
the owner, the owner included. -/
def outranks (s : GroupState) (actor target : PublicKey) : Bool :=
  if some target = s.owner then false
  else if some actor = s.owner then true
  else s.rank target < s.rank actor

def outranksRole (s : GroupState) (actor : PublicKey) (role : RoleDef) : Bool :=
  some actor = s.owner || Rank.mk role.position < s.rank actor

/-- You cannot grant what you do not hold. -/
def canGrant (s : GroupState) (actor : PublicKey) (granting : Permissions) : Bool :=
  (granting.beyond (s.base actor)).isEmpty

def requireMember (s : GroupState) (p : PublicKey) : Except Refusal Unit :=
  if s.isMember p then .ok () else .error .notAMember

def require (s : GroupState) (p : PublicKey) (needed : Permissions) : Except Refusal Unit :=
  if (s.base p).contains needed then .ok () else .error (.lacks needed)

/-- The assigned roles that count: defined ones, the default one aside. -/
def knownRoles (s : GroupState) (roles : BTreeSet String) : BTreeSet String :=
  roles.filter fun r => r != defaultRole && s.roles.contains r

/-- The span silencing `who` at `date`, if any. -/
def silenceAt (s : GroupState) (who : PublicKey) (date : Timestamp) : Option Silence :=
  s.silences.find? fun silence => silence.who == who && silence.covers date

def isBanned (s : GroupState) (p : PublicKey) : Bool := s.bans.contains p

/-- Until when `p` is muted, as of `now`. -/
def mutedUntil (s : GroupState) (p : PublicKey) (now : Timestamp) : Option Timestamp :=
  (s.mutes[p]?).filter fun u => now < u

/-- May anyone read `channel`? A public group's channel that a member without
roles can view. -/
def openToReaders (s : GroupState) (channel : String) : Bool :=
  s.isPublic && (s.channel channel).isSome && (s.effectiveOf ∅ channel).contains .viewChannel

/-- Can every member view `channel`? -/
def everyoneCanView (s : GroupState) (channel : String) : Bool :=
  s.members.keys.all fun p => (s.effective p channel).contains .viewChannel

/-- The state as a snapshot at `seq + 1`. -/
def toSnapshot (s : GroupState) : Snapshot where
  seq := s.seq + 1
  name := s.name
  isPublic := s.isPublic
  newcomerWait := s.newcomerWait
  about := s.about
  channels := s.channels
  overrides := s.overrides
  roles := s.roles.toList.map (·.2)
  owner := s.owner
  members := s.members
  bans := s.bans
  mutes := s.mutes

/-! ### What the answers say, bit by bit and role by role -/

theorem has_rolePerms {s : GroupState} {r : String} {i : Fin 64} :
    (s.rolePerms r).has i ↔ ∃ role, s.roles[r]? = some role ∧ (Permissions.mk role.perms).has i := by
  unfold rolePerms
  cases s.roles[r]? <;> simp

theorem has_baseOf {s : GroupState} {held : BTreeSet String} {i : Fin 64} :
    (s.baseOf held).has i ↔
      ((s.rolePerms defaultRole).has i ∨ ∃ r ∈ held, (s.rolePerms r).has i) ∧
        Permissions.all.has i := by
  simp [baseOf, Permissions.has_foldl_union, -List.foldl_cons, Std.ExtTreeSet.mem_toList]

theorem mem_overridesOf {s : GroupState} {held : BTreeSet String} {c : String} {o : Override} :
    o ∈ s.overridesOf held c ↔
      o ∈ s.overrides ∧ o.channel = c ∧ (o.role = defaultRole ∨ o.role ∈ held) := by
  simp [overridesOf, Std.ExtTreeSet.contains_iff_mem]

/-- An override of `c` that allows bit `i` to whoever holds `held`. -/
def Allows (s : GroupState) (held : BTreeSet String) (c : String) (i : Fin 64) : Prop :=
  Permissions.channelScoped.has i ∧ ∃ o ∈ s.overridesOf held c, (Permissions.mk o.allow).has i

def Denies (s : GroupState) (held : BTreeSet String) (c : String) (i : Fin 64) : Prop :=
  Permissions.channelScoped.has i ∧ ∃ o ∈ s.overridesOf held c, (Permissions.mk o.deny).has i

theorem has_effectiveOf {s : GroupState} {held : BTreeSet String} {c : String} {i : Fin 64} :
    (s.effectiveOf held c).has i ↔
      ((s.baseOf held).has i ∧ ¬ s.Denies held c i ∨ s.Allows held c i) ∧ Permissions.all.has i := by
  simp only [effectiveOf, Permissions.has_sanitized, Permissions.has_union, Permissions.has_without,
    Permissions.has_intersection, Permissions.has_foldl_union, Permissions.has_none, false_or,
    Allows, Denies, and_comm]

theorem base_owner {s : GroupState} (own : some p = s.owner) : s.base p = .all := by
  simp [base, own]

theorem base_member {s : GroupState} (other : some p ≠ s.owner) (found : s.members[p]? = some held) :
    s.base p = s.baseOf held := by
  simp [base, other, found]

theorem base_stranger {s : GroupState} (other : some p ≠ s.owner) (found : s.members[p]? = none) :
    s.base p = .none := by
  simp [base, other, found]

theorem effective_owner {s : GroupState} (own : some p = s.owner) : s.effective p c = .all := by
  simp [effective, own]

theorem effective_member {s : GroupState} (other : some p ≠ s.owner) (found : s.members[p]? = some held) :
    s.effective p c = s.effectiveOf held c := by
  simp [effective, other, found]

theorem effective_stranger {s : GroupState} (other : some p ≠ s.owner) (found : s.members[p]? = none) :
    s.effective p c = .none := by
  simp [effective, other, found]

theorem le_rankOf {s : GroupState} {held : BTreeSet String} (member : r ∈ held)
    (found : s.roles[r]? = some role) : Rank.mk role.position ≤ s.rankOf held := by
  have listed : Rank.mk role.position ∈
      held.toList.filterMap fun r => (s.roles[r]?).map fun role => Rank.mk role.position :=
    List.mem_filterMap.mpr ⟨r, Std.ExtTreeSet.mem_toList.mpr member, by simp [found]⟩
  unfold rankOf
  cases top : (held.toList.filterMap fun r => (s.roles[r]?).map fun role => Rank.mk role.position).max? with
  | none => simp [List.max?_eq_none_iff.mp top] at listed
  | some most => exact (List.max?_eq_some_iff.mp top).2 _ listed

/-- A rank above the floor is the position of a role held. -/
theorem rankOf_cases (s : GroupState) (held : BTreeSet String) :
    s.rankOf held = Rank.floor ∨
      ∃ r ∈ held, ∃ role, s.roles[r]? = some role ∧ s.rankOf held = Rank.mk role.position := by
  unfold rankOf
  cases top : (held.toList.filterMap fun r => (s.roles[r]?).map fun role => Rank.mk role.position).max? with
  | none => exact .inl rfl
  | some most =>
    right
    obtain ⟨r, member, found⟩ := List.mem_filterMap.mp (List.max?_eq_some_iff.mp top).1
    obtain ⟨role, defined, same⟩ := Option.map_eq_some_iff.mp found
    exact ⟨r, Std.ExtTreeSet.mem_toList.mp member, role, defined, same.symm⟩

section Reading
variable [Nostr]

/-- An action the snapshot has folded, or an invite that expired before it. -/
def isFolded (s : GroupState) (ev : Event) (now : Timestamp) : Bool :=
  if ev.kind = createInvite then
    match parseAction ev with
    | some (_, .invite _ (some e)) => e < now && e < s.cutoff
    | _ => false
  else actionKinds.contains ev.kind && ev.createdAt < s.cutoff

/-- Does `ev` carry a channel that decides who reads it? -/
def inChannel (ev : Event) : Bool := channelKinds.contains ev.kind || ev.kind == voicePresence

/-- Is `ev` the removal of `p`? -/
def removes (ev : Event) (p : PublicKey) : Bool :=
  match parseAction ev with
  | some (_, .remove target _) => target == p
  | _ => false

/-- May `reader` see `ev`, an event of this group? -/
def mayRead (s : GroupState) (reader : PublicKey) (ev : Event) (now : Timestamp) : Bool :=
  if !s.isMember reader then
    if removes ev reader then true
    else if !s.isPublic || s.isFolded ev now then false
    else if inChannel ev then (channelOf ev).any s.openToReaders
    else true
  else if s.isFolded ev now then false
  else if inChannel ev then
    (channelOf ev).any fun c => (s.effective reader c).contains .viewChannel
  else true

end Reading

end GroupState

end HitEnter.Group
