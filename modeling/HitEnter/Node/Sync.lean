import HitEnter.Lib.Dialogue
import HitEnter.Lib.Rounds
import HitEnter.Node.Session

/-! The client half of a session: which ids differ, then what is lacking here, applied in an
order in which what authorises an event comes before it, and then what is lacking there. -/

namespace HitEnter.Node

open Wire HitEnter.Group Lib.Dialogue Lib.Rounds Lib.Ranks

/-- Ids asked for at once: fewer than a filter is answered with. -/
def fetchChunk : ℕ := 200

/-- The state of a group, who owns it, the actions, what is a person's own, what is said, and
last what withdraws. -/
def applyClass (kind : Kind) : ℕ :=
  if stateKinds.contains kind then 0
  else if kind = createGroup then 1
  else if actionKinds.contains kind then 2
  else if isPersonal kind then 3
  else if kind = deletion ∨ kind = deleteEvent then 5
  else 4

/-- The order fetched events are applied in. -/
def applyOrder (ev : Event) : ℕ ×ₗ Timestamp := toLex (applyClass ev.kind, ev.createdAt)

/-- What one sync did. -/
structure SyncStats where
  rounds : ℕ := 0
  weNeeded : ℕ := 0
  theyNeeded : ℕ := 0
  fetched : ℕ := 0
  duplicates : ℕ := 0
  pushed : ℕ := 0
  refused : ℕ := 0
deriving DecidableEq

inductive SyncError where
  | frame (error : FrameError)
  | hello
  | binding (error : BindingError)
  | refusedByPeer (why : String)
  | negentropy
  | unexpected (during : String) (message : RelayMessage)
  /-- The rounds have not come to an end. -/
  | unended

/-- The stream to a peer: what it does with a message, what it has answered that is not read
yet, and what was sent to it. -/
structure Line (σ : Type) where
  peer : σ
  waiting : List RelayMessage := []
  sent : List ClientMessage := []

/-- Part of a sync, as far as it talks. -/
abbrev Talk (σ : Type) := EStateM SyncError (Line σ)

/-- The next message; a stream without one has been closed. -/
def readRelay {σ : Type} : Talk σ RelayMessage := do
  match (← get).waiting with
  | [] => throw (.frame .closed)
  | message :: rest =>
    modify fun line => { line with waiting := rest }
    return message

section Client
variable {σ : Type} (talk : σ → ClientMessage → σ × List RelayMessage)

def Line.write (line : Line σ) (message : ClientMessage) : Line σ :=
  let out := talk line.peer message
  { peer := out.1, waiting := line.waiting ++ out.2, sent := line.sent ++ [message] }

def writeClient (message : ClientMessage) : Talk σ Unit := modify fun line => line.write talk message

variable [Negentropy]

/-- Rounds until the crate has no more to ask: how many, and the ids that are only here and
only there. -/
def negRounds : ℕ → Negentropy.State → ℕ → List EventId → List EventId → Talk σ (ℕ × List EventId × List EventId)
  | 0, _, _, _, _ => throw .unended
  | fuel + 1, neg, rounds, have_, need => do
    match ← readRelay with
    | .negMsg _ message =>
      match Negentropy.reconcileWithIds neg message have_ need with
      | none => throw .negentropy
      | some (neg, some out, have_, need) => do
        writeClient talk (.negMsg "sync" (Lib.Hex.encode out))
        negRounds fuel neg (rounds + 1) have_ need
      | some (_, none, have_, need) => return (rounds + 1, have_, need)
    | .negErr _ why => throw (.refusedByPeer why)
    | other => throw (.unexpected "negentropy" other)

/-- Which of the ids in `items` the peer lacks, and which of its own are not in `items`. -/
def reconcileWith (fuel : ℕ) (items : List (Timestamp × EventId)) : Talk σ (ℕ × List EventId × List EventId) := do
  match Negentropy.owned items with
  | none => throw .negentropy
  | some neg =>
    match Negentropy.initiate neg with
    | none => throw .negentropy
    | some (neg, out) => do
      writeClient talk (.negOpen "sync" { kinds := some carriedKinds } (Lib.Hex.encode out))
      let found ← negRounds talk fuel neg 0 [] []
      writeClient talk (.negClose "sync")
      return found

/-- The events of an answer, up to its end. -/
def readEvents : ℕ → List Event → Talk σ (List Event)
  | 0, _ => throw .unended
  | fuel + 1, events => do
    match ← readRelay with
    | .event _ ev => readEvents fuel (events ++ [ev])
    | .eose _ => return events
    | .closed _ why => throw (.refusedByPeer why)
    | other => throw (.unexpected "fetch" other)

/-- The events of some ids; as many messages are read as there are. -/
def fetch (ids : List EventId) : Talk σ (List Event) := do
  writeClient talk (.req "fetch" [{ ids := some ids }])
  readEvents ((← get).waiting.length + 1) []

def fetchAll : List (List EventId) → Talk σ (List Event)
  | [] => return []
  | ids :: rest => do
    let events ← fetch talk ids
    return events ++ (← fetchAll rest)

/-- The verdicts on events that were handed over. -/
def readVerdicts : List Event → SyncStats → Talk σ SyncStats
  | [], stats => return stats
  | _ :: rest, stats => do
    match ← readRelay with
    | .ok _ true _ => readVerdicts rest { stats with pushed := stats.pushed + 1 }
    | .ok _ false _ => readVerdicts rest { stats with refused := stats.refused + 1 }
    | other => throw (.unexpected "push" other)

def writeEvents : List Event → Talk σ Unit
  | [] => return ()
  | ev :: rest => do
    writeClient talk (.event ev)
    writeEvents rest

def pushAll : List (List Event) → SyncStats → Talk σ SyncStats
  | [], stats => return stats
  | events :: rest, stats => do
    writeEvents talk events
    pushAll rest (← readVerdicts events stats)

variable [NostrEvents] [Devices] [Wraps]

/-- A node while it applies what it fetched, and how often it has looked at the clock. -/
structure Applying where
  node : Inner
  looks : ℕ
  stats : SyncStats

/-- The first try of an event; what is not new is counted as such. -/
def Applying.first (clock : ℕ → Timestamp) (s : Applying) (ev : Event) : Applying × Bool :=
  let out := s.node.receive ev .fetch (clock s.looks)
  ({ node := out.1
     looks := s.looks + 1
     stats := if out.2.1 = false then s.stats
       else if out.2.2 = "" then { s.stats with fetched := s.stats.fetched + 1 }
       else { s.stats with duplicates := s.stats.duplicates + 1 } }, out.2.1)

def Applying.again (clock : ℕ → Timestamp) (s : Applying) (ev : Event) : Applying × Bool :=
  let out := s.node.receive ev .fetch (clock s.looks)
  ({ node := out.1
     looks := s.looks + 1
     stats := if out.2.1 then { s.stats with fetched := s.stats.fetched + 1 } else s.stats }, out.2.1)

/-- Within one second the order cannot say which of two actions came first. What is refused
waits and is tried again while anything new gets in. -/
def applyFetched (clock : ℕ → Timestamp) (s : Applying) (events : List Event) : Applying :=
  let first := pass (Applying.first clock) s (sorted applyOrder events)
  let out := settle (Applying.again clock) first.1 first.2
  { out.1 with stats := { out.1.stats with refused := out.1.stats.refused + out.2.length } }

/-- What is held of the ids the peer lacks, in the same order. -/
def pushing (node : Inner) (have_ : List EventId) : List Event :=
  sorted applyOrder ((chunks fetchChunk have_).flatMap fun ids => node.store.query { ids := some ids })

/-- A sync with `person`, whose device presented `binding`: reconciled over what each may
show the other, fetched, applied and pushed. Then the peer's binding is kept, if the two now
share a group. -/
def syncWith (fuel : ℕ) (clock : ℕ → Timestamp) (node : Inner) (person : PublicKey) (binding : Event) (line : Line σ) :
    Inner × EStateM.Result SyncError (Line σ) SyncStats :=
  let items := negItems { node, binding, now := clock 0 } person { kinds := some carriedKinds }
  let lacking : Talk σ (SyncStats × List EventId × List Event) := do
    let (rounds, have_, need) ← reconcileWith talk fuel items
    let events ← fetchAll talk (chunks fetchChunk need)
    return ({ rounds, weNeeded := need.length, theyNeeded := have_.length }, have_, events)
  match lacking line with
  | .error error line => (node, .error error line)
  | .ok (stats, have_, events) line =>
    let applied := applyFetched clock { node, looks := 1, stats } events
    match pushAll talk (chunks fetchChunk (pushing applied.node have_)) applied.stats line with
    | .error error line => (applied.node, .error error line)
    | .ok stats line => ((applied.node.receive binding .fetch (clock applied.looks)).1, .ok stats line)

end Client

/-- The other side's first message: its binding, or why it wants none of ours. -/
def openSession [NostrEvents] [Devices] [Wraps] (node : Inner) (conn : EndpointId) (now : Timestamp) :
    RelayMessage → Inner × Except SyncError (PublicKey × Event)
  | .hello theirs =>
    match node.authenticate theirs conn now with
    | (node, .error error) => (node, .error (.binding error))
    | (node, .ok person) => (node, .ok (person, theirs))
  | .notice why => (node, .error (.refusedByPeer why))
  | _ => (node, .error .hello)

end HitEnter.Node
