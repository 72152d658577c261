import HitEnter.Group.Apply
import HitEnter.Group.Genesis
import HitEnter.Lib.Rounds

/-! A group's state, folded from signed events: the snapshot at its highest
`seq`, then the actions dated at or after it, second by second. -/

namespace HitEnter.Group

open Wire Lib.Rounds

variable [Nostr]

/-- What one walk over the events collects. -/
structure Scan where
  pieces : BTreeMap Kind Event := ∅
  creators : BTreeSet PublicKey := ∅
  actions : List Event := []

/-- Events of other groups, and kinds the fold does not read, are ignored. -/
def Scan.event (group : PublicKey) (acc : Scan) (ev : Event) : Scan :=
  if groupOf ev ≠ some group then acc
  else if stateKinds.contains ev.kind then
    if (parseState ev).isNone then acc
    else
      let slot := (acc.pieces[ev.kind]?).getD ev
      { acc with pieces := acc.pieces.insert ev.kind (if replaces ev slot then ev else slot) }
  else if ev.kind = createGroup then { acc with creators := acc.creators.insert ev.pubkey }
  else if actionKinds.contains ev.kind then { acc with actions := acc.actions ++ [ev] }
  else acc

def scan (group : PublicKey) (events : List Event) : Scan := events.foldl (Scan.event group) {}

def GroupState.blank (group : PublicKey) : GroupState where
  id := group
  seq := 0
  cutoff := 0
  name := ""
  isPublic := false
  newcomerWait := 0
  about := ""
  joined := ∅
  owner := none
  namedOwner := none
  channels := []
  overrides := []
  roles := ∅
  members := ∅
  invites := ∅
  applied := ∅
  bans := ∅
  mutes := ∅
  silences := []

/-- The state while the four pieces are being read, with what is only settled
after the last one. -/
structure Reading where
  state : GroupState
  assignments : BTreeMap PublicKey (BTreeSet String) := ∅
  namedOwner : Option PublicKey := none

/-- A role called like the owner's marker is no role. -/
def addRole (roles : BTreeMap String RoleDef) (r : RoleDef) : BTreeMap String RoleDef :=
  if r.id = ownerMark then roles else roles.insert r.id (GroupState.sanitizedRole r)

def Reading.piece (r : Reading) : StatePiece → Reading
  | .metadata name isPublic newcomerWait about channels overrides =>
    { r with state := { r.state with name, isPublic, newcomerWait, about, channels, overrides } }
  | .admins owner assignments => { r with namedOwner := owner, assignments := assignments }
  | .members members bans mutes =>
    { r with state := { r.state with
        members := .ofList (members.toList.map fun p => (p, ∅))
        bans := bans
        mutes := mutes } }
  | .roles roles => { r with state := { r.state with roles := roles.foldl addRole r.state.roles } }

/-- Each piece raises `seq` and the cutoff to its own. -/
def Reading.kind (pieces : BTreeMap Kind Event) (r : Reading) (kind : Kind) : Option Reading := do
  let ev ← pieces[kind]?
  let (_, seq, piece) ← parseState ev
  let state := { r.state with seq := max r.state.seq seq, cutoff := max r.state.cutoff ev.createdAt }
  return { r with state := state }.piece piece

/-- A group without a default role still needs an answer to what a plain member
may do: nothing. -/
def withDefaultRole (roles : BTreeMap String RoleDef) : BTreeMap String RoleDef :=
  if roles.contains defaultRole then roles
  else roles.insert defaultRole { id := defaultRole, name := defaultRole, perms := 0, position := 0 }

/-- A mute the snapshot carries silences from the cutoff. -/
def mutesFrom (cutoff : Timestamp) (mutes : BTreeMap PublicKey Timestamp) : List Silence :=
  mutes.toList.filterMap fun entry =>
    if cutoff < entry.2 then
      some { who := entry.1, since := cutoff, until_ := some entry.2, mute := true }
    else none

/-- The default role, the assignments, the owner and the silences, once all four
pieces are read. The owner is the person named who also signed a `9007`. -/
def Reading.finish (r : Reading) (creators : BTreeSet PublicKey) : GroupState :=
  let s := { r.state with roles := withDefaultRole r.state.roles }
  let members := s.members.map fun p held => (r.assignments[p]?).elim held s.knownRoles
  let owner := r.namedOwner.filter creators.contains
  { s with
    members := owner.elim members fun o => members.insert o ∅
    namedOwner := r.namedOwner
    owner := owner
    silences := mutesFrom s.cutoff s.mutes }

/-- `none` until the group key's four state events are all there. -/
def snapshotState (group : PublicKey) (scan : Scan) : Option GroupState := do
  let r ← stateKinds.foldlM (Reading.kind scan.pieces) { state := .blank group }
  return r.finish scan.creators

/-- By date, then by id. -/
def sortKey (ev : Event) : Timestamp ×ₗ EventId := toLex (ev.createdAt, ev.id)

def sortActions (actions : List Event) : List Event :=
  actions.insertionSort fun a b => sortKey a ≤ sortKey b

/-- Invites are credentials, whatever their age. -/
def recordInvite (invites : BTreeMap String (List Invite)) (ev : Event) : BTreeMap String (List Invite) :=
  if ev.kind = createInvite then
    match parseAction ev with
    | some (_, .invite code expires) =>
      invites.insert code ((invites[code]?).getD [] ++
        [{ author := ev.pubkey, createdAt := ev.createdAt, expires := expires }])
    | _ => invites
  else invites

/-- The actions that apply on top of a snapshot. -/
def isLive (cutoff : Timestamp) (ev : Event) : Bool := ev.kind != createInvite && cutoff ≤ ev.createdAt

namespace GroupState

/-- One try at an action within its second; an applied one is remembered. -/
def attempt (s : GroupState) (ev : Event) : GroupState × Bool :=
  match s.apply ev with
  | (next, .ok ()) => ({ next with applied := next.applied.insert ev.id }, true)
  | (next, .error _) => (next, false)

/-- The state before the first action, its invites recorded. -/
def start (group : PublicKey) (events : List Event) : Option GroupState := do
  let s ← snapshotState group (scan group events)
  return { s with invites := (sortActions (scan group events).actions).foldl recordInvite ∅ }

/-- The actions to apply, in order. -/
def live (group : PublicKey) (events : List Event) (cutoff : Timestamp) : List Event :=
  (sortActions (scan group events).actions).filter (isLive cutoff)

/-- Folds `events` into the state of `group`: within one second actions are
applied in id order until nothing more applies, across seconds in order. -/
def fold (group : PublicKey) (events : List Event) : Option GroupState := do
  let s ← start group events
  return runBatches attempt Event.createdAt s (live group events s.cutoff)

/-- The states the fold of `events` goes through: its start, and what any try
at one of its live actions leaves. -/
inductive Reached (group : PublicKey) (events : List Event) : GroupState → Prop where
  | start (found : GroupState.start group events = some s) : Reached group events s
  | attempt (earlier : Reached group events s) (member : ev ∈ live group events s.cutoff) :
      Reached group events (s.attempt ev).1

/-- A start that passes a check is reached. -/
theorem reached_of_start {group : PublicKey} {events : List Event} {check : GroupState → Bool}
    (found : (GroupState.start group events).any check = true) :
    ∃ s, Reached group events s ∧ check s = true := by
  obtain ⟨s, same, passes⟩ := (Option.any_eq_true _ _).mp found
  exact ⟨s, .start same, passes⟩

end GroupState

end HitEnter.Group
