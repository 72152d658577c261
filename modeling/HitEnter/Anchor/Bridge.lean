import HitEnter.Anchor.Nip29
import HitEnter.Lib.Counting
import HitEnter.Node.Carrying
import HitEnter.Node.Session
import HitEnter.Wire.Announce

/-! The anchor's bridge: an ordinary relay for clients that know nothing of this protocol. Public
groups are read by anyone, the rest by whoever signs the challenge with their person's key; what
is written goes through the node's one gate. -/

namespace HitEnter

open Wire

namespace Wire

def maxName : ℕ := 64

def cleanName (name : String) : String :=
  .ofList (((Lib.Text.trim name).toList.filter fun c => !isControl c).take maxName)

/-- The name a profile shows. -/
def nameOf [Cards] (ev : Event) : Option String :=
  if ev.kind ≠ profile then none
  else (([Cards.name ev.content, Cards.displayName ev.content].filterMap id).map cleanName).find? (· ≠ "")

end Wire

/-- The names held of some people. -/
def Node.Store.names [Cards] (s : Node.Store) (people : List PublicKey) : BTreeMap PublicKey String :=
  if people.isEmpty then ∅
  else .ofList ((s.query { kinds := some [profile], authors := some people }).filterMap fun ev =>
    (nameOf ev).map fun name => (ev.pubkey, name)) compare

namespace Anchor

open HitEnter.Group HitEnter.Node Lib.Checks Lib.Counting

/-- The crate's own reading of a filter. -/
class Matching where
  matchEvent : Filter → Event → Bool

def authentication : Kind := 22242

/-- How old an `AUTH` may be. -/
def authMaxAge : ℕ := 600

/-- The key translations are signed with, and the public URL, if the operator said. -/
structure Bridge where
  relay : PublicKey
  url : Option String

structure Conn where
  challenge : String
  reader : Option PublicKey := none
  /-- Who an unauthenticated client reads as: a fresh key, a member of nothing. -/
  anon : PublicKey
  subs : BTreeMap String (List Filter) := ∅

/-- Whom a client reads as. -/
def Conn.reads (c : Conn) : PublicKey := c.reader.getD c.anon

/-- The group key's own state. -/
def nativeState (ev : Event) : Bool := stateKinds.contains ev.kind

def couldAskForState (f : Filter) : Bool := f.kinds.all fun kinds => nip29Kinds.any kinds.contains

/-- A URL as two are compared. -/
def normUrl (url : String) : String := Lib.Ascii.lower (.ofList (url.toList.reverse.dropWhile (· == '/')).reverse)

section Auth
variable [NostrEvents]

/-- Signed, naming our challenge, and our URL if we know it, and recent. -/
def Bridge.checkAuth (b : Bridge) (challenge : String) (ev : Event) (now : Timestamp) : Except String Unit := do
  refuseIf (ev.kind != authentication) "invalid: not an AUTH event"
  refuseIf (!NostrEvents.verify ev) "invalid: bad signature"
  refuseIf (firstValue ev "challenge" != some challenge) "invalid: wrong challenge"
  refuseIf (b.url.any fun url => (firstValue ev "relay").all fun named => normUrl named != normUrl url)
    "invalid: the AUTH names another relay"
  refuseIf (authMaxAge < max ev.createdAt.toNat now.toNat - min ev.createdAt.toNat now.toNat)
    "invalid: AUTH too old or from the future"

end Auth

/-- The node at a look, and the time. -/
structure Sight [Nostr] where
  node : Inner
  now : Timestamp

/-- What a turn sees: for each filter a look at what is held, then one at the groups and one for
the names of each of them. -/
abbrev Sights [Nostr] := ℕ → ℕ → Sight

section Bridge
variable [Cards] [Matching]

/-- The state of every group `reader` is a member of, and of every public one. -/
def Bridge.translations (b : Bridge) (sights : ℕ → Sight) (reader : PublicKey) : List Event :=
  let groups := (sights 0).node.groups.carried.values.filterMap fun state =>
    state.filter fun s => s.isMember reader || s.isPublic
  groups.zipIdx.flatMap fun entry =>
    let sight := sights (entry.2 + 1)
    let names := sight.node.store.names entry.1.members.keys
    translate b.relay entry.1 (fun p => names[p]?) sight.now

/-- The answer to one filter: what the node may show, minus the group key's own state, plus its
translation. -/
def Bridge.answer (b : Bridge) (sights : ℕ → Sight) (reader : PublicKey) (f : Filter) : List Event :=
  let sight := sights 0
  let shown := (visible sight.node.store sight.node.groups reader f sight.now).filter fun ev => !nativeState ev
  let told := if couldAskForState f then
      (b.translations (fun i => sights (i + 1)) reader).filter (Matching.matchEvent f)
    else []
  (shown ++ told).take (f.limit.elim maxEventsPerFilter (min · maxEventsPerFilter))

/-- A live event: to every subscription it matches, if the reader may. -/
def Conn.live (sight : Sight) (c : Conn) (ev : Event) : List RelayMessage :=
  if nativeState ev || !sight.node.groups.mayRead c.reads ev sight.now then []
  else (c.subs.toList.filter fun entry => entry.2.any (Matching.matchEvent · ev)).map fun entry => .event entry.1 ev

variable [Devices] [Wraps]

/-- One client message: what it leaves of the node and the connection, and the answer. -/
def Bridge.handle (b : Bridge) (sights : Sights) (c : Conn) (message : ClientMessage) : Inner × Conn × List RelayMessage :=
  let sight := sights 0 0
  match message with
  | .auth ev =>
    match b.checkAuth c.challenge ev sight.now with
    | .ok () => (sight.node, { c with reader := some ev.pubkey }, [.ok ev.id true ""])
    | .error why => (sight.node, c, [.ok ev.id false why])
  | .req sub filters =>
    if maxFiltersPerReq < filters.length then (sight.node, c, [.closed sub "invalid: too many filters"])
    else
      let rows := firsts Event.id (filters.zipIdx.flatMap fun entry => b.answer (sights entry.2) c.reads entry.1)
      (sight.node, { c with subs := c.subs.insert sub filters }, rows.map (.event sub) ++ [.eose sub])
  | .close sub => (sight.node, { c with subs := c.subs.erase sub }, [])
  | .event ev =>
    -- A receipt comes from a Lightning address's server, which does not authenticate.
    if ev.kind = zapReceipt then
      let out := carryZap (fun i => (sights 0 i).node) ev (sights 0 3).now
      (out.1, c, [match out.2 with
        | .ok _ => .ok ev.id true ""
        | .error error => .ok ev.id false ("blocked: " ++ error.display)])
    else if c.reader.isNone then (sight.node, c, [.ok ev.id false "auth-required: authenticate (NIP-42) first"])
    else if ev.kind = chatMessage ∧ (channelOf ev).isNone then
      (sight.node, c,
        [.ok ev.id false "blocked: this group's messages need a channel tag; post from HIT_ENTER for now"])
    else
      let out := sight.node.receive ev .push sight.now
      (out.1, c, [.ok ev.id out.2.1 out.2.2])
  | _ => (sight.node, c, [.notice "error: unsupported message"])

/-- What a connection hears: from its client, or of an event that came in. -/
inductive Heard where
  | text (text : String)
  | other
  | closed
  | live (ev : Event)
  | lagged

/-- What a connection sees as it hears, and how many messages its client still takes, if not
all. -/
structure Turn where
  sights : Sights
  heard : Heard
  takes : Option ℕ := none

/-- The messages that get through; the session ends where one does not. -/
def Turn.send (turn : Turn) (out : Inner × Conn × List RelayMessage) : Inner × Option Conn × List RelayMessage :=
  match turn.takes with
  | none => (out.1, some out.2.1, out.2.2)
  | some n => (out.1, if out.2.2.length ≤ n then some out.2.1 else none, out.2.2.take n)

variable [Messages]

/-- A turn of a session, which may have ended. -/
def Bridge.step (b : Bridge) (turn : Turn) : Option Conn → Inner × Option Conn × List RelayMessage
  | none => ((turn.sights 0 0).node, none, [])
  | some c =>
    let node := (turn.sights 0 0).node
    match turn.heard with
    | .text text =>
      match Messages.clientMessage text with
      | none => turn.send (node, c, [.notice "error: not a NIP-01 client message"])
      | some message => turn.send (b.handle turn.sights c message)
    | .other => (node, some c, [])
    | .closed => (node, none, [])
    | .live ev => turn.send (node, c, c.live (turn.sights 0 0) ev)
    -- Whether the notice gets through is not asked.
    | .lagged =>
      (node, some c,
        [RelayMessage.notice "lagged: some live events were skipped; re-subscribe"].take (turn.takes.getD 1))

/-- The connection that is left. -/
def Bridge.next (b : Bridge) (c : Option Conn) (turn : Turn) : Option Conn := (b.step turn c).2.1

/-- A session begins with a challenge. -/
def Conn.opened (challenge : String) (anon : PublicKey) : Conn := { challenge, anon }

end Bridge

end Anchor

end HitEnter
