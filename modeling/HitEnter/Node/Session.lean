import HitEnter.Lib.Ascii
import HitEnter.Lib.Runs
import HitEnter.Node.Answers
import HitEnter.Node.Relay

/-! The relay half of a session: a device says whose it is by a binding, and from then on
every request is judged as the person the binding names, per event. Between two looks at
the node anything may have happened to it. -/

namespace HitEnter.Node

open Wire HitEnter.Group Lib.Json Lib.Runs

/-- Sets one session may have under reconciliation at once. -/
def maxNegSessions : Nat := 4

inductive HelloError where
  | notAHello
  | noEvent
deriving DecidableEq

def HelloError.display : HelloError → String
  | .notAHello => "the first frame is not a HIT-BINDING message"
  | .noEvent => "the HIT-BINDING message does not carry an event"

/-- Why a session ended early. -/
inductive SessionError where
  | frame (error : FrameError)
  | hello (error : HelloError)
  | binding (error : BindingError)

def SessionError.display : SessionError → String
  | .frame error => error.display
  | .hello error => "the peer did not open with a binding: " ++ error.display
  | .binding error => "the peer's binding was refused: " ++ error.display

/-- A message to a relay. -/
inductive ClientMessage where
  | event (ev : Event)
  | req (sub : String) (filters : List Filter)
  | close (sub : String)
  | negOpen (sub : String) (filter : Filter) (initial : String)
  | negMsg (sub message : String)
  | negClose (sub : String)
  | auth (ev : Event)
  | unsupported

/-- How messages are read: the array of a name and what may be an event, and the messages
to a relay. -/
class Messages where
  named : List UInt8 → Option (String × Option Event)
  clientMessage : String → Option ClientMessage

/-- The crate that tells two sets of ids apart: one side's state, made of its set; the first
message of whoever begins; what the other side answers to a message; and what whoever began
makes of an answer: its next message, until there is none, and the ids that are only here and
only there so far. -/
class Negentropy where
  State : Type
  owned : List (Timestamp × EventId) → Option State
  initiate : State → Option (State × List UInt8)
  reconcile : State → List UInt8 → Option (State × List UInt8)
  reconcileWithIds : State → List UInt8 → List EventId → List EventId →
    Option (State × Option (List UInt8) × List EventId × List EventId)

/-- The event a hello frame carries. -/
def decodeHello [Messages] (body : List UInt8) : Except HelloError Event :=
  match Messages.named body with
  | none => .error .notAHello
  | some (name, event) => if name ≠ helloName then .error .notAHello else Lib.Checks.orRefuse event .noEvent

/-- Who is at the other end of `conn`, by the binding presented: one that holds is worth keeping,
and a stranger's is refused, which is fine. -/
def Inner.authenticate [NostrEvents] [Devices] [Wraps] (node : Inner) (presented : Event) (conn : EndpointId)
    (now : Timestamp) : Inner × Except BindingError PublicKey :=
  match node.book.authenticate presented conn now with
  | (book, .error error) => ({ node with book := book }, .error error)
  | (book, .ok person) => ((Inner.receive { node with book := book } presented .fetch now).1, .ok person)

/-- What a step of a session sees when it looks at the node. -/
structure Moment [NostrEvents] where
  node : Inner
  binding : Event
  now : Timestamp

/-- A step looks once for each filter it is asked for, and else once. -/
abbrev Looks [NostrEvents] := ℕ → Moment

/-- A frame's body, or why there is none. -/
abbrev Reading := Except FrameError (List UInt8)

section Sessions
variable [NostrEvents] [Negentropy]

/-- A session that knows whom it serves. -/
structure Serving where
  person : PublicKey
  presented : Event
  negs : BTreeMap String Negentropy.State := ∅

inductive Session where
  | hello
  | serving (s : Serving)
  | ended

/-- The set a negentropy session with `person` is about. -/
def negItems (m : Moment) (person : PublicKey) (filter : Filter) : List (Timestamp × EventId) :=
  (reconcilable m.node.store m.node.groups person { filter with limit := none } m.now).map fun ev => (ev.createdAt, ev.id)

/-- A negentropy session and its first answer. -/
def openNeg (m : Moment) (person : PublicKey) (filter : Filter) (initial : String) :
    Option (Negentropy.State × List UInt8) := do
  let neg ← Negentropy.owned (negItems m person filter)
  let message ← Lib.Hex.decode initial
  Negentropy.reconcile neg message

/-- What a `REQ` is answered with, each filter with what is seen when its turn comes. -/
def answerReq (looks : Looks) (person : PublicKey) (sub : String) (filters : List Filter) : List RelayMessage :=
  if maxSubscriptionIdBytes < size sub then [.closed sub "invalid: subscription id too long"]
  else if maxFiltersPerReq < filters.length then [.closed sub "invalid: too many filters"]
  else
    (filters.zipIdx.flatMap fun entry =>
      let m := looks entry.2
      (visible m.node.store m.node.groups person (capped entry.1) m.now).map (.event sub)) ++ [.eose sub]

variable [Devices] [Wraps]

/-- One message: what it leaves of the node and the session, and what it is answered with. -/
def Serving.handle (looks : Looks) (s : Serving) (message : ClientMessage) : Inner × Serving × List RelayMessage :=
  let m := looks 0
  match message with
  | .event ev =>
    let out := m.node.receive ev .push m.now
    (out.1, s, [.ok ev.id out.2.1 out.2.2])
  | .req sub filters => (m.node, s, answerReq looks s.person sub filters)
  | .negOpen sub filter initial =>
    if maxNegSessions ≤ s.negs.size ∧ s.negs.contains sub = false then
      (m.node, s, [.negErr sub "blocked: too many negentropy sessions"])
    else match openNeg m s.person filter initial with
      | some (neg, out) => (m.node, { s with negs := s.negs.insert sub neg }, [.negMsg sub out])
      | none => (m.node, s, [.negErr sub "invalid: bad negentropy message"])
  | .negMsg sub message =>
    match (s.negs[sub]?).bind fun neg => (Lib.Hex.decode message).bind (Negentropy.reconcile neg) with
    | some (neg, out) => (m.node, { s with negs := s.negs.insert sub neg }, [.negMsg sub out])
    | none => (m.node, { s with negs := s.negs.erase sub }, [.negErr sub "closed: unknown session or bad message"])
  | .negClose sub => (m.node, { s with negs := s.negs.erase sub }, [])
  | .close _ => (m.node, s, [])
  | .auth _ | .unsupported => (m.node, s, [.notice "error: unsupported message"])

/-- The words a session that ended early is closed with. -/
def refuse (error : SessionError) : List RelayMessage := (write [.notice ("refused: " ++ error.display)]).1

/-- The answers are written; the session ends where one cannot be. -/
def Serving.conclude (out : Inner × Serving × List RelayMessage) : Inner × Session × List RelayMessage :=
  match (write out.2.2).2 with
  | none => (out.1, .serving out.2.1, (write out.2.2).1)
  | some error => (out.1, .ended, (write out.2.2).1 ++ refuse (.frame error))

variable [Messages]

/-- A frame of the dialler's: its binding first, both ways, and then one message after
another until it finishes its side. -/
def Session.step (conn : EndpointId) (looks : Looks) (read : Reading) (session : Session) :
    Inner × Session × List RelayMessage :=
  let m := looks 0
  match session, read with
  | .hello, .error error => (m.node, .ended, refuse (.frame error))
  | .hello, .ok body =>
    match decodeHello body with
    | .error error => (m.node, .ended, refuse (.hello error))
    | .ok presented =>
      match m.node.authenticate presented conn m.now with
      | (node, .error error) => (node, .ended, refuse (.binding error))
      | (node, .ok person) => Serving.conclude (node, { person, presented }, [.hello m.binding])
  -- The session may have made the dialler a member; its binding was refused if so.
  | .serving s, .error .closed => ((m.node.receive s.presented .fetch m.now).1, .ended, [])
  | .serving _, .error error => (m.node, .ended, refuse (.frame error))
  | .serving s, .ok body =>
    match Lib.Ascii.ofBytes body with
    | none => Serving.conclude (m.node, s, [.notice "error: frame is not UTF-8"])
    | some text =>
      match Messages.clientMessage text with
      | none => Serving.conclude (m.node, s, [.notice "error: not a NIP-01 client message"])
      | some message => Serving.conclude (s.handle looks message)
  | .ended, _ => (m.node, .ended, [])

/-- A session with the frames it has read and what it has said to each. -/
structure Record where
  session : Session
  past : List (Looks × Reading) := []
  said : List (Looks × RelayMessage) := []

def Record.add (r : Record) (turn : Looks × Reading) (out : Session × List RelayMessage) : Record where
  session := out.1
  past := r.past ++ [turn]
  said := r.said ++ out.2.map (turn.1, ·)

def Record.step (conn : EndpointId) (r : Record) (turn : Looks × Reading) : Record :=
  r.add turn (r.session.step conn turn.1 turn.2).2

end Sessions

/-! ### A reading of the messages, and of the crate, that runs -/

/-- A `REQ` for everything. -/
def requestAll : String := array [quote "REQ", quote "all", object []]

instance plainMessages : Messages where
  named _ := none
  clientMessage text := if text = requestAll then some (.req "all" [{}]) else none

def plainIdBytes (id : EventId) : List UInt8 := (List.range 32).map fun i => UInt8.ofNat (id.bytes.toNat / 256 ^ i)

def plainReadIds (row : List UInt8) : List EventId :=
  (List.range (row.length / 32)).map fun k =>
    ⟨BitVec.ofNat 256 (((row.drop (32 * k)).take 32).foldr (fun byte n => byte.toNat + 256 * n) 0)⟩

/-- Each side names all it has, once. -/
instance plainNegentropy : Negentropy where
  State := List EventId
  owned items := some (items.map Prod.snd)
  initiate ids := some (ids, ids.flatMap plainIdBytes)
  reconcile ids _ := some (ids, ids.flatMap plainIdBytes)
  reconcileWithIds ids message have_ need :=
    let theirs := plainReadIds message
    some (ids, none, have_ ++ ids.filter (!theirs.contains ·), need ++ theirs.filter (!ids.contains ·))

end HitEnter.Node
