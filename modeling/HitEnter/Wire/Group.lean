import HitEnter.Wire.Replace

/-! What a group's events look like: the group key's four state events, the
actions people sign, and how each is read. Nothing here answers a permission
question. -/

namespace HitEnter.Wire

open Lib.Decimal

inductive ChannelKind where
  | text
  | voice
deriving DecidableEq

def ChannelKind.asStr : ChannelKind → String
  | .text => "text"
  | .voice => "voice"

def ChannelKind.parse (cell : String) : Option ChannelKind :=
  if cell = "text" then some .text else if cell = "voice" then some .voice else none

structure Channel where
  id : String
  name : String
  kind : ChannelKind
  slowmode : UInt32
deriving DecidableEq

/-- One role's adjustment in one channel, as permission bits. -/
structure Override where
  channel : String
  role : String
  allow : UInt64
  deny : UInt64
deriving DecidableEq

structure RoleDef where
  id : String
  name : String
  perms : UInt64
  position : Int64
deriving DecidableEq

/-- Everything the group key states about a group at one `seq`. -/
structure Snapshot where
  seq : UInt64
  name : String
  isPublic : Bool
  newcomerWait : UInt32
  about : String
  channels : List Channel
  overrides : List Override
  roles : List RoleDef
  owner : Option PublicKey
  members : BTreeMap PublicKey (BTreeSet String)
  bans : BTreeSet PublicKey
  mutes : BTreeMap PublicKey Timestamp

def channelTag (channel : Channel) : Tag :=
  ["channel", channel.id, channel.name, channel.kind.asStr, channel.slowmode.toNat.repr]

/-- Always one of the two pairs: a group with neither reads as private. -/
def visibilityTags (isPublic : Bool) : List Tag :=
  if isPublic then [["public"], ["open"]] else [["private"], ["closed"]]

def overrideTag (o : Override) : Tag :=
  ["override", o.channel, o.role, o.allow.toNat.repr, o.deny.toNat.repr]

def roleTag (role : RoleDef) : Tag :=
  ["role", role.id, role.name, role.perms.toNat.repr, role.position.toInt.repr]

section Sign
variable [Nostr]

/-- An event a builder finishes with its tags kept as given. -/
def signed (key : PublicKey) (date : Timestamp) (kind : Kind) (tags : List Tag) (content : String) :
    Event :=
  { id := Nostr.eventId key date kind tags content
    pubkey := key
    createdAt := date
    kind := kind
    tags := tags
    content := content }

def Snapshot.baseTags (snap : Snapshot) (group : PublicKey) : List Tag :=
  [["d", Nostr.toHex group], ["seq", snap.seq.toNat.repr]]

def Snapshot.metadataTags (snap : Snapshot) : List Tag :=
  ["name", snap.name] :: visibilityTags snap.isPublic ++
    (if 0 < snap.newcomerWait then [["newcomer_wait", snap.newcomerWait.toNat.repr]] else []) ++
    (if snap.about.isEmpty then [] else [["about", snap.about]]) ++
    snap.channels.map channelTag ++ snap.overrides.map overrideTag

/-- A member without roles has no entry here. -/
def assignmentTag (entry : PublicKey × BTreeSet String) : Option Tag :=
  if entry.2.isEmpty then none else some ("p" :: Nostr.toHex entry.1 :: entry.2.toList)

def Snapshot.adminTags (snap : Snapshot) : List Tag :=
  (snap.owner.map fun owner => ["p", Nostr.toHex owner, ownerMark]).toList ++
    snap.members.toList.filterMap assignmentTag

def Snapshot.memberTags (snap : Snapshot) : List Tag :=
  snap.members.keys.map (fun p => ["p", Nostr.toHex p]) ++
    snap.bans.toList.map (fun p => ["ban", Nostr.toHex p]) ++
    snap.mutes.toList.map (fun entry => ["mute", Nostr.toHex entry.1, entry.2.secs.toNat.repr])

/-- The four state events, signed by the group key, all at `date`. -/
def Snapshot.sign (snap : Snapshot) (group : PublicKey) (date : Timestamp) : List Event :=
  [signed group date groupMetadata (snap.baseTags group ++ snap.metadataTags) "",
   signed group date groupAdmins (snap.baseTags group ++ snap.adminTags) "",
   signed group date groupMembers (snap.baseTags group ++ snap.memberTags) "",
   signed group date groupRoles (snap.baseTags group ++ snap.roles.map roleTag) ""]

end Sign

/-- One of the four state events, read. -/
inductive StatePiece where
  | metadata (name : String) (isPublic : Bool) (newcomerWait : UInt32) (about : String)
      (channels : List Channel) (overrides : List Override)
  | admins (owner : Option PublicKey) (assignments : BTreeMap PublicKey (BTreeSet String))
  | members (members : BTreeSet PublicKey) (bans : BTreeSet PublicKey)
      (mutes : BTreeMap PublicKey Timestamp)
  | roles (roles : List RoleDef)

/-- `[id, name, kind, slowmode?]`; an absent slowmode is 0. -/
def parseChannel : List String → Option Channel
  | id :: name :: kind :: more => do
    let kind ← ChannelKind.parse kind
    let slowmode ← match more with
      | cell :: _ => parseU32 cell
      | [] => some 0
    return { id, name, kind, slowmode }
  | _ => none

def parseOverride (channel role allow deny : String) : Option Override := do
  let allow ← parseU64 allow
  let deny ← parseU64 deny
  return { channel, role, allow, deny }

def parseRole (id name perms position : String) : Option RoleDef := do
  let perms ← parseU64 perms
  let position ← parseI64 position
  return { id, name, perms, position }

/-- The metadata rows read so far. -/
structure MetadataRows where
  name : String := ""
  isPublic : Bool := false
  isPrivate : Bool := false
  newcomerWait : UInt32 := 0
  about : String := ""
  channels : List Channel := []
  overrides : List Override := []

def metadataRow (acc : MetadataRows) : Tag → Option MetadataRows
  | "name" :: v :: _ => some { acc with name := v }
  | "public" :: _ => some { acc with isPublic := true }
  | "private" :: _ => some { acc with isPrivate := true }
  | "newcomer_wait" :: v :: _ => (parseU32 v).map fun wait => { acc with newcomerWait := wait }
  | "about" :: v :: _ => some { acc with about := v }
  | "channel" :: rest => (parseChannel rest).map fun c =>
      { acc with channels := acc.channels ++ [c] }
  | "override" :: channel :: role :: allow :: deny :: _ =>
      (parseOverride channel role allow deny).map fun o =>
        { acc with overrides := acc.overrides ++ [o] }
  | "override" :: _ => none
  | _ => some acc

structure AdminRows where
  owner : Option PublicKey := none
  assignments : BTreeMap PublicKey (BTreeSet String) := ∅

structure MemberRows where
  members : BTreeSet PublicKey := ∅
  bans : BTreeSet PublicKey := ∅
  mutes : BTreeMap PublicKey Timestamp := ∅

def roleRow (acc : List RoleDef) : Tag → Option (List RoleDef)
  | "role" :: id :: name :: perms :: position :: _ =>
      (parseRole id name perms position).map fun r => acc ++ [r]
  | "role" :: _ => none
  | _ => some acc

section Parse
variable [Nostr]

def adminRow (acc : AdminRows) : Tag → Option AdminRows
  | "p" :: p :: rest => (Nostr.fromHex p).map fun p =>
      if rest.contains ownerMark then { acc with owner := some p }
      else { acc with assignments := acc.assignments.insert p (.ofList rest) }
  | _ => some acc

def memberRow (acc : MemberRows) : Tag → Option MemberRows
  | "p" :: p :: _ => (Nostr.fromHex p).map fun p => { acc with members := acc.members.insert p }
  | "ban" :: p :: _ => (Nostr.fromHex p).map fun p => { acc with bans := acc.bans.insert p }
  | "mute" :: p :: until_ :: _ => do
      let p ← Nostr.fromHex p
      let secs ← parseU64 until_
      return { acc with mutes := acc.mutes.insert p ⟨secs⟩ }
  | _ => some acc

/-- The piece a state event of `kind` states. -/
def parsePiece (kind : Kind) (rows : List Tag) : Option StatePiece :=
  if kind = groupMetadata then
    (rows.foldlM metadataRow {}).map fun m =>
      .metadata m.name (m.isPublic && !m.isPrivate) m.newcomerWait m.about m.channels m.overrides
  else if kind = groupAdmins then
    (rows.foldlM adminRow {}).map fun a => .admins a.owner a.assignments
  else if kind = groupMembers then
    (rows.foldlM memberRow {}).map fun m => .members m.members m.bans m.mutes
  else
    (rows.foldlM roleRow []).map .roles

/-- Reads a state event: `none` for a wrong kind, a signer other than the
group it names, a missing `seq` or a malformed known tag. -/
def parseState (event : Event) : Option (PublicKey × UInt64 × StatePiece) := do
  let group ← groupOf event
  if !stateKinds.contains event.kind || event.pubkey != group then none
  let seq ← seqOf event
  let piece ← parsePiece event.kind event.tags
  return (group, seq, piece)

end Parse

/-- One change a `9002` makes. -/
inductive Edit where
  | name (name : String)
  | isPublic (isPublic : Bool)
  | newcomerWait (secs : UInt32)
  | about (text : String)
  | channel (channel : Channel)
  | channelDelete (id : String)
  | override (o : Override)
  | role (role : RoleDef)
  | roleDelete (id : String)
deriving DecidableEq

/-- An action, read. Its author, date and id are the event's. -/
inductive Action where
  | put (target : PublicKey) (roles : BTreeSet String)
  | remove (target : PublicKey) (ban : Bool)
  | unban (target : PublicKey)
  | mute (target : PublicKey) (until_ : Option Timestamp)
  | edit (edits : List Edit)
  | invite (code : String) (expires : Option Timestamp)
  | join (code : Option String)
  | leave

/-- A known edit tag too short to read. -/
def knownEdits : List String :=
  ["name", "newcomer_wait", "about", "channel", "channel-delete", "override", "role",
    "role-delete"]

/-- `none` for a malformed known tag, `some none` for a tag that is no edit. -/
def Edit.parse : Tag → Option (Option Edit)
  | "name" :: v :: _ => some (some (.name v))
  | "public" :: _ => some (some (.isPublic true))
  | "private" :: _ => some (some (.isPublic false))
  | "newcomer_wait" :: v :: _ => (parseU32 v).map fun secs => some (.newcomerWait secs)
  | "about" :: v :: _ => some (some (.about v))
  | "channel" :: rest => (parseChannel rest).map fun c => some (.channel c)
  | "channel-delete" :: id :: _ => some (some (.channelDelete id))
  | "override" :: inChannel :: ofRole :: allow :: deny :: _ =>
      (parseOverride inChannel ofRole allow deny).map fun o => some (.override o)
  | "role" :: id :: label :: perms :: position :: _ =>
      (parseRole id label perms position).map fun r => some (.role r)
  | "role-delete" :: id :: _ => some (some (.roleDelete id))
  | cell :: _ => if knownEdits.contains cell then none else some none
  | [] => some none

/-- The edits of a `9002`, in tag order. -/
def parseEdits (tags : List Tag) : Option (List Edit) :=
  tags.foldlM (fun edits tag => (Edit.parse tag).map fun e => edits ++ e.toList) []

section Action
variable [Nostr]

/-- The person an action's first `p` names. -/
def actionTarget (event : Event) : Option PublicKey := (firstValue event "p").bind Nostr.fromHex

/-- Reads an action; `none` if malformed. -/
def parseAction (event : Event) : Option (PublicKey × Action) := do
  let group ← groupOf event
  let flag := fun (name : String) => event.tags.any fun tag => tag.head? == some name
  if event.kind = putUser then
    let roles := (event.tags.findSome? fun
      | "p" :: _ :: rest => some (Std.ExtTreeSet.ofList rest compare)
      | _ => none).getD ∅
    let target ← actionTarget event
    return (group, .put target roles)
  else if event.kind = removeUser then
    let target ← actionTarget event
    if flag "unban" then return (group, .unban target)
    else return (group, .remove target (flag "ban"))
  else if event.kind = muteUser then
    let secs ← event.tags.findSome? fun
      | "p" :: _ :: secs :: _ => parseU64 secs
      | _ => none
    let target ← actionTarget event
    return (group, .mute target (if 0 < secs then some ⟨secs⟩ else none))
  else if event.kind = editMetadata then
    let edits ← parseEdits event.tags
    if edits.isEmpty then none
    else return (group, .edit edits)
  else if event.kind = createInvite then
    let code ← firstValue event "code"
    let expires ← match firstValue event "expiration" with
      | some cell => (parseU64 cell).map fun secs => some (Timestamp.mk secs)
      | none => some none
    return (group, .invite code expires)
  else if event.kind = join then
    return (group, .join (firstValue event "code"))
  else if event.kind = leave then
    return (group, .leave)
  else none

/-- Nothing but an action reads as one. -/
theorem parseAction_kind {event : Event} (read : parseAction event = some parsed) :
    actionKinds.contains event.kind = true := by
  by_contra other
  simp only [actionKinds, List.contains_iff_mem, List.mem_cons, List.not_mem_nil, or_false, not_or] at other
  obtain ⟨put, remove, edit, mute, invite, joins, leaves⟩ := other
  cases group : groupOf event with
  | none => simp [parseAction, group] at read
  | some g => simp [parseAction, group, put, remove, edit, mute, invite, joins, leaves] at read

end Action

end HitEnter.Wire
