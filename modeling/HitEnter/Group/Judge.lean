import HitEnter.Group.State
import HitEnter.Wire.Message
import HitEnter.Lib.Checks

/-! May an event be stored and forwarded, whoever delivered it, and who may see
it? The state answers for what is posted in its channels; `Groups`, the groups a
node carries, for everything a node is handed. -/

namespace HitEnter.Group

open Wire Lib.Checks

/-- A newcomer's wait in a public group is never under this. -/
def publicNewcomerFloor : UInt32 := 5 * 60
def maxReaction : Nat := 32
def maxClockSkew : UInt64 := 600
def presenceMaxAge : UInt64 := 120
def maxWrapBytes : Nat := 64 * 1024
def inboxKeepSecs : UInt64 := 7 * 24 * 60 * 60

namespace GroupState

/-- The seconds between a person's messages in `channel`; 0 where there is none. -/
def slowmode (s : GroupState) (channel : String) : UInt32 := (s.channel channel).elim 0 (·.slowmode)

/-- The wait that applies to a newcomer, in seconds. -/
def newcomerWaitNow (s : GroupState) : UInt32 :=
  if s.isPublic then max s.newcomerWait publicNewcomerFloor else s.newcomerWait

section Post
variable [NostrEvents]

/-- When `p` may first post, if they are a newcomer still waiting at `now`. -/
def postsFrom (s : GroupState) (p : PublicKey) (now : Timestamp) : Option Timestamp :=
  if s.newcomerWaitNow = 0 then none
  else ((s.joined[p]?).map fun date => Nostr.add date s.newcomerWaitNow.toUInt64).filter fun open_ => now < open_

def judgeInChannel (s : GroupState) (ev : Event) (needed : Permissions) : Except Refusal Unit := do
  let channel ← orRefuse (channelOf ev) .malformed
  let _ ← orRefuse (s.channel channel) .noSuchChannel
  s.requireMember ev.pubkey
  refuseIf (!(s.effective ev.pubkey channel).contains needed) (.lacks needed)

/-- The seconds left of a wait, as a `u32`. -/
def secondsLeft (open_ date : Timestamp) : UInt32 :=
  UInt32.ofNat (min (open_.secs.toNat - date.secs.toNat) (2 ^ 32 - 1))

/-- Its author must be a member who can view and post in an existing channel. -/
def judgeMessage (s : GroupState) (msg : Event) : Except Refusal Unit := do
  refuseIf (msg.kind == chatMessage && (attachmentsOf msg).isNone) .malformed
  s.judgeInChannel msg (Permissions.viewChannel.union .sendMessages)
  refuseWith ((s.silenceAt msg.pubkey msg.createdAt).map fun span => if span.mute then .muted else .notAMember)
  refuseWith ((s.postsFrom msg.pubkey msg.createdAt).map fun open_ => .newcomer (secondsLeft open_ msg.createdAt))

/-- A member who may view the channel, and the channel a voice channel. -/
def judgeVoice (s : GroupState) (ev : Event) : Except Refusal Unit := do
  let channel ← orRefuse (channelOf ev) .malformed
  let c ← orRefuse (s.channel channel) .noSuchChannel
  refuseIf (c.kind != .voice) .noSuchChannel
  s.requireMember ev.pubkey
  refuseIf (!(s.effective ev.pubkey channel).contains .viewChannel) (.lacks .viewChannel)

/-- Which targets a moderator's removal removes is the node's to say. -/
def judgeRemoval (s : GroupState) (ev : Event) : Except Refusal Unit := do
  refuseIf (targetsOf ev).isEmpty .malformed
  s.judgeInChannel ev (Permissions.viewChannel.union .manageMessages)

/-- As a message, with one target and a short, non-empty content. -/
def judgeReaction (s : GroupState) (ev : Event) : Except Refusal Unit := do
  let length := ev.content.toList.length
  refuseIf ((targetsOf ev).length != 1 || length == 0 || maxReaction < length) .malformed
  s.judgeMessage ev

/-- Bringing in a receipt says nothing, so viewing the channel is enough. -/
def judgeZap (s : GroupState) (ev : Event) : Except Refusal Unit :=
  match carriedZap ev with
  | .ok _ => s.judgeInChannel ev .viewChannel
  | .error .tooLarge => .error .tooLarge
  | .error _ => .error .malformed

/-- Whose events it withdraws is the store's rule. -/
def judgeDeletion (s : GroupState) (ev : Event) : Except Refusal Unit := do
  refuseIf (targetsOf ev).isEmpty .malformed
  s.judgeInChannel ev .viewChannel

end Post

end GroupState

/-! ### The groups a node carries -/

/-- What a node decided about an event that may be stored. An action is stored
only if folding it with everything held applies it. -/
inductive Judgement where
  | store
  | foldWith (group : PublicKey)
deriving DecidableEq

/-- Each person's inbox anchors, and each carried group's state, `none` while a
join is on its way. -/
structure Groups where
  me : PublicKey
  inboxes : BTreeMap PublicKey (BTreeSet PublicKey) := ∅
  carried : BTreeMap PublicKey (Option GroupState) := ∅

def carriedKinds : List Kind :=
  [deviceBinding, profile, inboxList, giftWrap, voicePresence, chatMessage, reaction, zapCarrier, deletion,
    presence, createGroup] ++ actionKinds ++ [deleteEvent] ++ stateKinds

/-- A person's own events rather than a group's. -/
def isPersonal (kind : Kind) : Bool := kind == deviceBinding || kind == profile || kind == inboxList

namespace Groups

/-- Records a person's inbox list: the anchors that keep their DMs. -/
def setInboxes (gs : Groups) (person : PublicKey) (anchors : BTreeSet PublicKey) : Groups :=
  { gs with inboxes := if anchors.isEmpty then gs.inboxes.erase person else gs.inboxes.insert person anchors }

/-- Starts carrying `group`. -/
def carry (gs : Groups) (group : PublicKey) : Groups := { gs with carried := gs.carried.insertIfNew group none }

/-- Replaces a carried group's state with a fresh fold. -/
def setState (gs : Groups) (group : PublicKey) (state : Option GroupState) : Groups :=
  { gs with carried := if gs.carried.contains group then gs.carried.insert group state else gs.carried }

def state (gs : Groups) (group : PublicKey) : Option GroupState := (gs.carried[group]?).join

/-- The states there are. -/
def states (gs : Groups) : List GroupState := gs.carried.toList.filterMap (·.2)

/-- The recipient, and the anchors their inbox list names. -/
def keepsDmsFor (gs : Groups) (reader recipient : PublicKey) : Bool :=
  reader == recipient || (gs.inboxes[recipient]?).any fun anchors => anchors.contains reader

/-- A profile of a member of a public group: anyone's to read. -/
def publicProfile (gs : Groups) (ev : Event) : Bool :=
  ev.kind == profile && gs.states.any fun s => s.isPublic && s.isMember ev.pubkey

def shareAGroup (gs : Groups) (a b : PublicKey) : Bool :=
  (gs.states.filter (·.isMember a)).any fun s => s.isMember b

section Judge
variable [NostrEvents]

/-- A DM: kept for its recipient, by them and by the anchors they named. -/
def judgeWrap (gs : Groups) (ev : Event) (now : Timestamp) : Except Refusal Judgement := do
  refuseIf (maxWrapBytes < (Lib.Hex.bytes ev.content).length) .tooLarge
  let recipient ← orRefuse (recipientOf ev) .malformed
  refuseIf (recipient != gs.me && ev.createdAt.secs + inboxKeepSecs < now.secs) .stale
  refuseIf (!gs.keepsDmsFor gs.me recipient) .notOurs
  return .store

def judgePersonal (gs : Groups) (ev : Event) : Except Refusal Judgement := do
  refuseIf (!(ev.pubkey == gs.me || gs.shareAGroup gs.me ev.pubkey || gs.publicProfile ev)) .notAMember
  return .store

/-- An invite is worth keeping only while its author may invite. -/
def judgeInvite (s : GroupState) (ev : Event) (now : Timestamp) : Except Refusal Judgement := do
  refuseIf (s.isFolded ev now) .folded
  refuseIf (!(s.base ev.pubkey).contains .createInvite) (.lacks .createInvite)
  return .store

/-- What is neither state, creation nor action, by its kind. -/
def judgePost (s : GroupState) (ev : Event) (now : Timestamp) : Except Refusal Judgement := do
  if ev.kind = presence then
    refuseIf (Nostr.add ev.createdAt presenceMaxAge < now) .stale
    refuseIf (!s.isMember ev.pubkey) .notAMember
  else if ev.kind = voicePresence then
    refuseIf (Nostr.add ev.createdAt presenceMaxAge < now) .stale
    s.judgeVoice ev
  else if ev.kind = reaction then s.judgeReaction ev
  else if ev.kind = zapCarrier then s.judgeZap ev
  else if ev.kind = deletion then s.judgeDeletion ev
  else if ev.kind = deleteEvent then s.judgeRemoval ev
  else s.judgeMessage ev
  return .store

def judgeInGroup (gs : Groups) (ev : Event) (now : Timestamp) : Except Refusal Judgement := do
  let group ← orRefuse (groupOf ev) .malformed
  let slot ← orRefuse gs.carried[group]? .groupNotCarried
  if stateKinds.contains ev.kind then
    refuseIf (parseState ev).isNone .notSignedByGroup
    return .store
  let s ← orRefuse slot .noState
  if ev.kind = createGroup then
    refuseIf (s.namedOwner != some ev.pubkey) .notTheOwner
    return .store
  if ev.kind = createInvite then judgeInvite s ev now
  else if actionKinds.contains ev.kind then
    refuseIf (s.isFolded ev now) .folded
    return .foldWith group
  else judgePost s ev now

/-- Judged by its author and its group, never by the peer that sent it. -/
def judge (gs : Groups) (ev : Event) (now : Timestamp) : Except Refusal Judgement := do
  refuseIf (!carriedKinds.contains ev.kind) (.kindNotCarried ev.kind)
  refuseIf (Nostr.add now maxClockSkew < ev.createdAt) .fromTheFuture
  if ev.kind = giftWrap then gs.judgeWrap ev now
  else if isPersonal ev.kind then gs.judgePersonal ev
  else gs.judgeInGroup ev now

/-- The one rule behind a `REQ`, a negentropy set and gossip fan-out. -/
def mayRead (gs : Groups) (reader : PublicKey) (ev : Event) (now : Timestamp) : Bool :=
  if ev.kind = giftWrap then (recipientOf ev).any (gs.keepsDmsFor reader)
  else if isPersonal ev.kind then
    ev.pubkey == reader || gs.shareAGroup reader ev.pubkey || gs.publicProfile ev
  else ((groupOf ev).bind gs.state).any fun s => s.mayRead reader ev now

/-- The group whose gossip carries `ev`: its state, its actions, and messages in
channels every member can view. -/
def gossipGroup (gs : Groups) (ev : Event) : Option PublicKey := do
  let group ← groupOf ev
  let s ← gs.state group
  if channelKinds.contains ev.kind || ev.kind == voicePresence then
    if (channelOf ev).any s.everyoneCanView then some group else none
  else if stateKinds.contains ev.kind || ev.kind == presence || actionKinds.contains ev.kind ||
      ev.kind == createGroup then some group
  else none

end Judge

end Groups

end HitEnter.Group
