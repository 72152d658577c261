import HitEnter.Lib.Runs
import HitEnter.Wire.Basic

/-! Voice calls. A call has a connection to each person in it, a task that reads from each,
and two loops of its own; one call is the current one. People join a voice channel or call
someone, and someone who calls rings here until the ring is answered. A step is what one of
these tasks does from one lock to the next, or while it waits for the network; starting a
call is one step, and so is ending one. -/

namespace HitEnter.Calls

open Wire

inductive Room where
  | channel (group : PublicKey) (channel : String)
  | dm (peer : PublicKey)
deriving DecidableEq

/-- A 1:1 call ringing here. -/
structure Ringing where
  id : ℕ
  caller : PublicKey
deriving DecidableEq

/-- A task that reads what a person sends over a connection of theirs. -/
structure Reader where
  person : PublicKey
  conn : ℕ
  running : Bool := true
deriving DecidableEq

/-- A call. `ring` is the one it was answered with, and `readers` is everyone it has ever had
a connection to, in the order they came in. -/
structure Call where
  room : Room
  ring : Option Ringing := none
  peers : BTreeMap PublicKey ℕ := ∅
  answered : Bool := false
  loops : Bool := true
  readers : List Reader := []

namespace Call

/-- Stops everything and hangs up on everyone. -/
def stop (call : Call) : Call :=
  { call with loops := false, peers := ∅, readers := call.readers.map ({ · with running := false }) }

/-- Takes in `person` over `conn`, in place of a connection they had. -/
def addPeer (person : PublicKey) (conn : ℕ) (call : Call) : Call :=
  { call with peers := call.peers.insert person conn, readers := call.readers ++ [{ person := person, conn := conn }] }

/-- Keeps those who are in `room`. -/
def retain (room : List PublicKey) (call : Call) : Call :=
  { call with peers := call.peers.filter fun person _ => room.contains person }

def markAnswered (call : Call) : Call := { call with answered := true }

/-- What reader `i` does once its connection is gone. -/
def readerEnds (i : ℕ) (call : Call) : Call :=
  match call.readers[i]? with
  | some reader =>
    if reader.running then
      { call with
        peers := call.peers.erase reader.person
        readers := call.readers.set i { reader with running := false } }
    else call
  | none => call

def isChannel (call : Call) : Bool :=
  match call.room with
  | .channel _ _ => true
  | .dm _ => false

end Call

/-- What a task on the way into a call is about to do. -/
inductive Entry where
  | joining (group : PublicKey) (channel : String)
  | calling (person : PublicKey)
  | ringingOut (call : ℕ) (person : PublicKey)
  | dialling (call : ℕ) (person : PublicKey)
  | adding (call : ℕ) (person : PublicKey) (marks : Bool)
  | marking (call : ℕ)
  | answering
  | picking (ring : Ringing)
  | deciding (ring : Ringing) (call : ℕ)
  | ended
deriving DecidableEq

/-- Is this the task that rings out for call `c`? It is one of the call's own. -/
def Entry.ringsFor (c : ℕ) : Entry → Bool
  | .ringingOut call _ => call == c
  | _ => false

/-- How far an incoming connection has come. `decision` is what was sent to it and it has not
heard yet. -/
inductive Knock where
  | channel (group : PublicKey) (channel : String) (person : Option PublicKey)
  | dm (caller : PublicKey)
  | ringing (ring : Ringing) (decision : Option Bool)
  | decided (ring : Ringing) (answer : Option Bool)
  | confirming (ring : Ringing) (answer : Option Bool)
  | admitted (call : ℕ) (person : PublicKey)
  | adding (call : ℕ) (person : PublicKey)
  | marking (call : ℕ)
  | ended
deriving DecidableEq

namespace Knock

/-- A connection comes in for a voice channel, of a device on which `person` may join it, or
from someone who may call. -/
def isNew : Knock → Bool
  | .channel _ _ _ => true
  | .dm _ => true
  | _ => false

/-- Does it still listen for what is decided of ring `id`? -/
def listens (id : ℕ) : Knock → Bool
  | .ringing ring _ => ring.id == id
  | _ => false

/-- Is sent what was decided of ring `id`. -/
def sent (id : ℕ) (yes : Bool) : Knock → Knock
  | .ringing ring decision => .ringing ring (if ring.id = id then some yes else decision)
  | knock => knock

end Knock

/-- Voice for one node, with the tasks under way. -/
structure Voice where
  max : ℕ
  calls : List Call := []
  current : Option ℕ := none
  ringing : Option Ringing := none
  rings : ℕ := 0
  conns : ℕ := 0
  entries : List Entry := []
  knocks : List Knock := []

/-- What may happen next. Someone here joins a channel, calls someone, answers, declines, or
leaves; a connection comes in; a task goes on, as what it waits for turns out; a reader's
connection is gone; or a call looks after itself, with who is in its channel and whom it is
to dial. -/
inductive Act where
  | join (group : PublicKey) (channel : String) (allowed : Bool) (others : ℕ)
  | call (person : PublicKey) (reachable : Bool)
  | answer
  | decline
  | leave
  | arrive (knock : Knock)
  | entry (i : ℕ) (ok : Bool)
  | knock (i : ℕ) (ok : Bool)
  | reader (call i : ℕ)
  | upkeep (call : ℕ) (room dials : List PublicKey)
deriving DecidableEq

namespace Voice

def update (v : Voice) (c : ℕ) (f : Call → Call) : Voice := { v with calls := v.calls.modify c f }

def setEntry (v : Voice) (i : ℕ) (entry : Entry) : Voice := { v with entries := v.entries.set i entry }

def setKnock (v : Voice) (i : ℕ) (knock : Knock) : Voice := { v with knocks := v.knocks.set i knock }

/-- Starts the loops of a call and makes it the current one. -/
def start (v : Voice) (room : Room) (ring : Option Ringing) : Voice :=
  { v with calls := v.calls ++ [{ room := room, ring := ring }], current := some v.calls.length }

/-- Stops call `c`, which no longer is the current one, and the tasks that are its own. -/
def hangUp (v : Voice) (c : ℕ) : Voice :=
  { v with
    calls := v.calls.modify c Call.stop
    current := none
    entries := v.entries.map fun entry => if entry.ringsFor c then .ended else entry }

/-- Ends call `c` if it is still the current one. -/
def finish (v : Voice) (c : ℕ) : Voice := if v.current = some c then v.hangUp c else v

def addPeer (v : Voice) (c : ℕ) (person : PublicKey) : Voice :=
  { v.update c (.addPeer person v.conns) with conns := v.conns + 1 }

/-- Sends what was decided of a ring to whoever rings. -/
def send (v : Voice) (ring : Ringing) (yes : Bool) : Voice :=
  { v with knocks := v.knocks.map (.sent ring.id yes) }

/-- The gate for a voice channel. -/
def admits (v : Voice) (group : PublicKey) (channel : String) (person : Option PublicKey) : Option (ℕ × PublicKey) := do
  let c ← v.current
  let call ← v.calls[c]?
  if call.room ≠ .channel group channel then none
  else
    let person ← person
    if !call.peers.contains person && v.max ≤ call.peers.size + 1 then none else some (c, person)

/-- The next step of a task on the way into a call. -/
def entryStep (v : Voice) (i : ℕ) (ok : Bool) : Entry → Voice
  | .joining group channel => if ok then (v.start (.channel group channel) none).setEntry i .ended else v.setEntry i .ended
  | .calling person =>
    if ok then (v.start (.dm person) none).setEntry i (.ringingOut v.calls.length person) else v.setEntry i .ended
  | .ringingOut c person => if ok then v.setEntry i (.adding c person true) else (v.finish c).setEntry i .ended
  | .dialling c person => if ok then v.setEntry i (.adding c person false) else v.setEntry i .ended
  | .adding c person marks =>
    (if ok then v.addPeer c person else v).setEntry i (if marks then .marking c else .ended)
  | .marking c => (v.update c .markAnswered).setEntry i .ended
  | .answering =>
    match v.ringing with
    | none => v.setEntry i .ended
    | some ring => { v with ringing := none }.setEntry i (.picking ring)
  | .picking ring =>
    if ok then (v.start (.dm ring.caller) (some ring)).setEntry i (.deciding ring v.calls.length) else v.setEntry i .ended
  | .deciding ring c =>
    -- Nobody listens any more: they hung up between the ring and the click.
    (if v.knocks.any (Knock.listens ring.id) then v.send ring true else v.finish c).setEntry i .ended
  | .ended => v

/-- The next step of an incoming connection. While it rings, what was sent to it may be there
and the connection gone, or the time up, all at once; `ok` says which is taken. -/
def knockStep (v : Voice) (i : ℕ) (ok : Bool) : Knock → Voice
  | .channel group channel person =>
    match v.admits group channel person with
    | none => v.setKnock i .ended
    | some (c, person) => v.setKnock i (.admitted c person)
  | .dm caller =>
    if v.current.isSome || v.ringing.isSome then { v with rings := v.rings + 1 }.setKnock i .ended
    else { v with ringing := some ⟨v.rings, caller⟩, rings := v.rings + 1 }.setKnock i (.ringing ⟨v.rings, caller⟩ none)
  | .ringing ring decision => v.setKnock i (.decided ring (if ok then decision else none))
  | .decided ring answer =>
    { v with ringing := v.ringing.filter fun r => r.id ≠ ring.id }.setKnock i (.confirming ring answer)
  | .confirming ring answer =>
    match answer, v.current with
    | some true, some c =>
      if (v.calls[c]?).any fun call => call.room = .dm ring.caller then v.setKnock i (.admitted c ring.caller)
      else v.setKnock i .ended
    | _, _ => v.setKnock i .ended
  | .admitted c person =>
    if ok then v.setKnock i (.adding c person)
    else if (v.calls[c]?).any fun call => !call.isChannel then (v.finish c).setKnock i .ended
    else v.setKnock i .ended
  | .adding c person => (if ok then v.addPeer c person else v).setKnock i (.marking c)
  | .marking c => (v.update c .markAnswered).setKnock i .ended
  | .ended => v

/-- A call looks after itself: a 1:1 call, once answered, ends when the other side goes; in
a voice channel those who have left are dropped, and others dialled. -/
def upkeep (v : Voice) (c : ℕ) (room dials : List PublicKey) : Voice :=
  match v.calls[c]? with
  | none => v
  | some call =>
    if !call.loops then v
    else if !call.isChannel then if call.answered && call.peers.isEmpty then v.finish c else v
    else
      { v.update c (.retain room) with
        entries := v.entries ++ ((dials.filter fun person =>
          room.contains person && !(call.retain room).peers.contains person).map (.dialling c)) }

def step (v : Voice) : Act → Voice
  | .join group channel allowed others =>
    if v.current.isSome || !allowed || v.max < others + 1 then v
    else { v with entries := v.entries ++ [.joining group channel] }
  | .call person reachable =>
    if v.current.isSome || !reachable then v else { v with entries := v.entries ++ [.calling person] }
  | .answer => if v.current.isSome then v else { v with entries := v.entries ++ [.answering] }
  | .decline =>
    match v.ringing with
    | none => v
    | some ring => { v with ringing := none }.send ring false
  | .leave =>
    match v.current with
    | none => v
    | some c => v.hangUp c
  | .arrive knock => if knock.isNew then { v with knocks := v.knocks ++ [knock] } else v
  | .entry i ok =>
    match v.entries[i]? with
    | none => v
    | some entry => v.entryStep i ok entry
  | .knock i ok =>
    match v.knocks[i]? with
    | none => v
    | some knock => v.knockStep i ok knock
  | .reader c i => v.update c (.readerEnds i)
  | .upkeep c room dials => v.upkeep c room dials

end Voice

end HitEnter.Calls
