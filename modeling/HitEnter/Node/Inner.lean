import HitEnter.Group.Fold
import HitEnter.Group.Judge
import HitEnter.Node.Withdraw
import HitEnter.Wire.BindingBook
import HitEnter.Wire.Dm

/-! What a node keeps, and the work that accepting an event is made of: the fold with
everything held, slowmode, purges, and what a direct message grants. -/

namespace HitEnter.Node

open Wire HitEnter.Group

/-- The kinds the fold reads. -/
def foldKinds : List Kind := stateKinds ++ createGroup :: actionKinds

/-- Not what is said in a channel, and not presence. -/
def changesState (kind : Kind) : Bool := !channelKinds.contains kind && kind != presence && kind != voicePresence

/-- At most so many bytes of wraps are kept for one other person. -/
def inboxCapBytes : Nat := 10 * 1000 * 1000

def lowercaseH : SingleLetterTag := ⟨'h', by decide⟩
def lowercaseD : SingleLetterTag := ⟨'d', by decide⟩

/-- Where an event came from: signed here, pushed by a peer, fetched, or off gossip. -/
inductive Source where
  | local_
  | push
  | fetch
  | gossip
deriving DecidableEq

/-- A reading of the clock that never goes back, in nanoseconds. -/
abbrev Instant := ℕ

section Queries
variable [Nostr]

/-- `filter`, of the events with an `h` tag that is the text of `group`. -/
def Filter.inGroup (filter : Filter) (group : PublicKey) : Filter :=
  { filter with genericTags := filter.genericTags ++ [(lowercaseH, [Nostr.toHex group])] }

namespace Store

/-- Every event the fold reads for `group`: the `9007`s and actions in it, and the
state its key signed. -/
def groupEvents (s : Store) (group : PublicKey) : List Event :=
  s.query (Filter.inGroup { kinds := some foldKinds } group) ++
    s.query {
      kinds := some stateKinds
      authors := some [group]
      genericTags := [(lowercaseD, [Nostr.toHex group])] }

/-- The ids of `author`'s events of `kinds` in `group` dated from `since` on and before
`until_`. -/
def authoredIn (s : Store) (group author : PublicKey) (kinds : List Kind) (since : Timestamp)
    (until_ : Option Timestamp) : List EventId :=
  if until_.any (· ≤ since) then []
  else
    (s.query (Filter.inGroup {
      authors := some [author]
      kinds := some kinds
      since := some since
      until_ := until_.map fun u => ⟨u.secs - 1⟩ } group)).map Event.id

/-- The messages held that carry the file `hash`. -/
def carrying (s : Store) (hash : String) : List Event :=
  s.events.filter fun ev =>
    ev.kind == chatMessage && (attachmentsOf ev).any fun files => files.any fun file => file.hash == hash

end Store

/-- The messages of `msg`'s author near enough to it for a wait of `wait` seconds. -/
def slowWindow (msg : Event) (group : PublicKey) (wait : UInt32) : Filter :=
  let span := wait.toUInt64 - 1
  Filter.inGroup {
    kinds := some [chatMessage]
    authors := some [msg.pubkey]
    since := some ⟨UInt64.ofNat (msg.createdAt.secs.toNat - span.toNat)⟩
    until_ := some (Nostr.add msg.createdAt span) } group

end Queries

/-- What became of an event: refused by the judgement or the book, withdrawn by its
author, removed by a moderator, or handed to the store. -/
inductive Verdict where
  | blocked (refusal : Refusal)
  | invalid (error : BindingError)
  | withdrawn
  | removed
  | stored (how : Stored)
deriving DecidableEq

def Verdict.accepted : Verdict → Bool
  | .stored _ => true
  | _ => false

/-- A node's store with the tables beside the events (when each arrived, and who may be
handed which DM file), what it judges by, its book of bindings, and how many of each
group's events a look has last counted. -/
structure Inner [Nostr] where
  store : Store
  groups : Groups
  book : BindingBook := .new
  received : BTreeMap EventId Timestamp := ∅
  grants : List (String × PublicKey) := []
  folded : BTreeMap PublicKey Nat := ∅

namespace Inner

section Grants
variable [Nostr]

/-- Lets `person` be handed the file `hash`. -/
def grantBlob (node : Inner) (hash : String) (person : PublicKey) : Inner :=
  if node.grants.contains (hash, person) then node else { node with grants := node.grants ++ [(hash, person)] }

/-- An event into the store, with when it arrived. -/
def insert (node : Inner) (ev : Event) (now : Timestamp) : Inner × Stored :=
  let out := node.store.insert ev
  ({ node with
      store := out.1
      received := if out.2 = .new then node.received.insert ev.id now else node.received }, out.2)

/-- The group as it folds from what is stored. -/
def foldOf (node : Inner) (group : PublicKey) : Option GroupState :=
  GroupState.fold group (node.store.groupEvents group)

/-- What the silences of `group` say should not be here. -/
def silenced (node : Inner) (group : PublicKey) : List EventId :=
  ((node.groups.state group).elim [] GroupState.silences).flatMap fun span =>
    node.store.authoredIn group span.who deletableKinds span.since span.until_

/-- An action is kept only if folding it with everything held applies it. -/
def applies (node : Inner) (ev : Event) : Judgement → Bool
  | .store => true
  | .foldWith group =>
    (GroupState.fold group (node.store.groupEvents group ++ [ev])).any fun s => s.applied.contains ev.id

/-- The seconds between messages of its channel, where `msg` does not keep them from
another of its author's. -/
def tooSoon (node : Inner) (msg : Event) : Option UInt32 := do
  let group ← groupOf msg
  let channel ← channelOf msg
  let wait := (node.groups.state group).elim 0 fun s => s.slowmode channel
  if wait = 0 then none
  else if (node.store.query (slowWindow msg group wait)).any fun ev =>
      ev.id != msg.id && channelOf ev == some channel then some wait
  else none

end Grants

section Work
variable [NostrEvents]

def remove (node : Inner) (ids : List EventId) : Inner := { node with store := node.store.remove ids }

/-- May any of `persons` read a message carrying `hash`, or were they granted it? -/
def permitted (node : Inner) (persons : List PublicKey) (hash : String) (now : Timestamp) : Bool :=
  (persons.any fun p => node.grants.contains (hash, p)) ||
    (node.store.carrying hash).any fun ev => persons.any fun p => node.groups.mayRead p ev now

/-- The sender's own outbox copy of a DM is kept until its recipient or their anchor
has it. -/
def judged (node : Inner) (ev : Event) (source : Source) (now : Timestamp) : Except Refusal Judgement :=
  match node.groups.judge ev now with
  | .error .notOurs => if source = .local_ ∧ ev.kind = giftWrap then .ok .store else .error .notOurs
  | judgement => judgement

/-- Removes the targets of a removal that are held here. -/
def applyRemoval (node : Inner) (removal : Event) : Inner := node.remove (removalTargets node.store removal)

section Bindings
variable [Devices]

/-- A binding goes into the book, which may refuse it. -/
def bookBinding (node : Inner) (ev : Event) (now : Timestamp) : Except BindingError Inner :=
  if ev.kind = deviceBinding then
    match node.book.insert ev now with
    | (_, .error refusal) => .error refusal
    | (book, .ok _) => .ok { node with book := book }
  else .ok node

/-- Keeps a binding of `person` that reached us outside any group, if it passes the
checks of any binding. -/
def learnBinding (node : Inner) (binding : Event) (person : PublicKey) (now : Timestamp) : Inner :=
  if binding.kind ≠ deviceBinding ∨ binding.pubkey ≠ person ∨ NostrEvents.verify binding = false then node
  else match node.bookBinding binding now with
    | .error _ => node
    | .ok node => (node.insert binding now).1

/-- A DM to us: its two people may be handed its file, and the sender's device is kept. -/
def openWrap [Wraps] (node : Inner) (wrap : Event) (now : Timestamp) : Inner :=
  match openDm node.groups.me wrap with
  | none => node
  | some d =>
    let granted := d.file.elim node fun f => (node.grantBlob f.hash d.sender).grantBlob f.hash d.recipient
    if d.sender = node.groups.me then granted
    else d.device.elim granted fun b => granted.learnBinding b d.sender now

def setInboxes (node : Inner) (list : Event) : Inner :=
  { node with groups := node.groups.setInboxes list.pubkey (inboxNpubs list) }

end Bindings

section Inbox
variable [Wraps]

/-- When a wrap arrived, then its own date. -/
def arrival (node : Inner) (wrap : Event) : ℤ ×ₗ ℤ :=
  toLex (column ((node.received[wrap.id]?).getD 0), column wrap.createdAt)

/-- The wraps addressed to `recipient`, the latest to arrive first. -/
def wrapsFor (node : Inner) (recipient : PublicKey) : List Event :=
  ((node.store.events.filter (·.kind = giftWrap)).flatMap fun ev =>
    ((tagRows ev).filter (· = ("p", Nostr.toHex recipient))).map fun _ => ev).insertionSort fun a b =>
      node.arrival b ≤ node.arrival a

/-- What is held so far of the wraps, and those over the cap. -/
def capStep (cap : Nat) (acc : Nat × List EventId) (wrap : Event) : Nat × List EventId :=
  let held := min (acc.1 + (Wraps.json wrap).length) (2 ^ 64 - 1)
  (held, if cap < held then acc.2 ++ [wrap.id] else acc.2)

/-- Keeps at most `cap` of the wraps addressed to `recipient`, dropping the earliest to arrive. -/
def capWraps (node : Inner) (recipient : PublicKey) (cap : Nat) : Inner :=
  node.remove ((node.wrapsFor recipient).foldl (capStep cap) (0, [])).2

/-- Somebody else's DM, kept for them: never more than the cap. -/
def keepInbox (node : Inner) (wrap : Event) : Inner :=
  match recipientOf wrap with
  | some person => if person = node.groups.me then node else node.capWraps person inboxCapBytes
  | none => node

end Inbox

end Work

end Inner

/-! ### A node that starts -/

section Start
variable [NostrEvents]

/-- The groups a store carries, folded: what a node would hold for `me`. -/
def groupsIn (store : Store) (carried : List PublicKey) (me : PublicKey) : Groups :=
  carried.foldl (fun gs group => (gs.carry group).setState group (GroupState.fold group (store.groupEvents group)))
    { me := me }

variable [Devices]

/-- Every binding held, back into a book; what it refuses is not loaded. -/
def bookIn (store : Store) (now : Timestamp) : BindingBook :=
  (store.query { kinds := some [deviceBinding] }).foldl (fun book ev => (book.insert ev now).1) .new

/-- A node as it starts on what it has kept: the rows, and the tables beside them. -/
def Inner.start (store : Store) (carried : List PublicKey) (me : PublicKey) (now : Timestamp)
    (received : BTreeMap EventId Timestamp := ∅) (grants : List (String × PublicKey) := []) : Inner where
  store := store
  groups := (store.query { kinds := some [inboxList] }).foldl
    (fun gs list => gs.setInboxes list.pubkey (inboxNpubs list)) (groupsIn store carried me)
  book := bookIn store now
  received := received
  grants := grants

end Start

end HitEnter.Node
