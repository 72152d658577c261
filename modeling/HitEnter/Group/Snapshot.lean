import HitEnter.Group.FoldSpec
import HitEnter.Lib.Maps

/-! The snapshot a fold starts from: the winning piece of each state kind, read
together, and the state it stands for. -/

namespace HitEnter.Group

open Wire Lib.KeepBest Lib.Maps

/-- What the four winning pieces state. -/
structure Winners where
  seq : UInt64
  cutoff : Timestamp
  name : String
  isPublic : Bool
  newcomerWait : UInt32
  about : String
  channels : List Channel
  overrides : List Override
  namedOwner : Option PublicKey
  assignments : BTreeMap PublicKey (BTreeSet String)
  members : BTreeSet PublicKey
  bans : BTreeSet PublicKey
  mutes : BTreeMap PublicKey Timestamp
  roles : List RoleDef

/-- The roles of a snapshot as the fold keeps them. -/
def Winners.roleMap (w : Winners) : BTreeMap String RoleDef := withDefaultRole (w.roles.foldl addRole ∅)

/-- The assigned roles that count, for someone with an assignment. -/
def Winners.assigned (w : Winners) (p : PublicKey) (held : BTreeSet String) : BTreeSet String :=
  (w.assignments[p]?).elim held fun roles =>
    roles.filter fun r => r != defaultRole && w.roleMap.contains r

def Winners.owner (w : Winners) (creators : BTreeSet PublicKey) : Option PublicKey :=
  w.namedOwner.filter creators.contains

/-- The members named, and the owner, who holds no role. -/
def Winners.memberMap (w : Winners) (creators : BTreeSet PublicKey) : BTreeMap PublicKey (BTreeSet String) :=
  let named : BTreeMap PublicKey (BTreeSet String) := .ofList (w.members.toList.map fun p => (p, ∅))
  let assigned := named.map w.assigned
  (w.owner creators).elim assigned fun o => assigned.insert o ∅

/-- The state a fold starts from. -/
def Winners.state (w : Winners) (group : PublicKey) (creators : BTreeSet PublicKey) : GroupState where
  id := group
  seq := w.seq
  cutoff := w.cutoff
  name := w.name
  isPublic := w.isPublic
  newcomerWait := w.newcomerWait
  about := w.about
  joined := ∅
  owner := w.owner creators
  namedOwner := w.namedOwner
  channels := w.channels
  overrides := w.overrides
  roles := w.roleMap
  members := w.memberMap creators
  invites := ∅
  applied := ∅
  bans := w.bans
  mutes := w.mutes
  silences := mutesFrom w.cutoff w.mutes

theorem Winners.getElem?_memberMap (w : Winners) (creators : BTreeSet PublicKey) (p : PublicKey) :
    (w.memberMap creators)[p]? =
      if some p = w.owner creators then some ∅
      else if p ∈ w.members then some (w.assigned p ∅) else none := by
  have named : ((Std.ExtTreeMap.ofList (w.members.toList.map fun p => (p, (∅ : BTreeSet String)))
      compare).map w.assigned)[p]? = if p ∈ w.members then some (w.assigned p ∅) else none := by
    rw [Std.ExtTreeMap.getElem?_map, getElem?_ofList_const]
    split <;> rfl
  unfold memberMap
  cases owned : w.owner creators with
  | none => simpa using named
  | some o =>
    simp only [Option.elim_some, Std.ExtTreeMap.getElem?_insert, Std.LawfulEqCmp.compare_eq_iff_eq,
      Option.some.injEq, eq_comm (a := p)]
    split
    · rfl
    · exact named

section Read
variable [Nostr] {group : PublicKey} {events : List Event}

/-- The winning piece of `kind`, read, with its `seq` and date. -/
def winning (group : PublicKey) (events : List Event) (kind : Kind) :
    Option (UInt64 × Timestamp × StatePiece) := do
  let ev ← (scan group events).pieces[kind]?
  let (_, seq, piece) ← parseState ev
  return (seq, ev.createdAt, piece)

/-- The winning snapshot, once there is one of every kind. -/
def winners (group : PublicKey) (events : List Event) : Option Winners :=
  match winning group events groupMetadata, winning group events groupAdmins,
      winning group events groupMembers, winning group events groupRoles with
  | some (s₀, d₀, .metadata name isPublic newcomerWait about channels overrides),
    some (s₁, d₁, .admins namedOwner assignments), some (s₂, d₂, .members members bans mutes),
    some (s₃, d₃, .roles roles) =>
    some { name, isPublic, newcomerWait, about, channels, overrides, namedOwner, assignments, members,
           bans, mutes, roles
           seq := max (max (max (max 0 s₀) s₁) s₂) s₃
           cutoff := max (max (max (max 0 d₀) d₁) d₂) d₃ }
  | _, _, _, _ => none

private theorem piece_kind {kind : Kind} (found : (scan group events).pieces[kind]? = some ev) :
    ev.kind = kind := by
  rw [scan_pieces] at found
  have piece := (List.mem_filter.mp (best_mem found)).2
  simp only [isPiece, Bool.and_eq_true, beq_iff_eq] at piece
  exact piece.2

/-- A state event has a `seq`, and which piece it states goes by its kind. -/
theorem parseState_some {ev : Event} {seq : UInt64} {piece : StatePiece}
    (read : parseState ev = some (g, seq, piece)) :
    groupOf ev = some g ∧ seqOf ev = some seq ∧ parsePiece ev.kind ev.tags = some piece := by
  simp only [parseState, Option.bind_eq_bind, Option.bind_eq_some_iff] at read
  obtain ⟨_, own, read⟩ := read
  split at read
  · simp at read
  · simp only [Option.bind_eq_some_iff, Option.pure_def, Option.some.injEq, Prod.mk.injEq] at read
    obtain ⟨_, found, _, stated, rfl, rfl, rfl⟩ := read
    exact ⟨own, found, stated⟩

private theorem winning_piece {kind : Kind} {won : UInt64 × Timestamp × StatePiece}
    (found : winning group events kind = some won) : ∃ rows, parsePiece kind rows = some won.2.2 := by
  simp only [winning, Option.bind_eq_bind, Option.bind_eq_some_iff, Option.pure_def,
    Option.some.injEq] at found
  obtain ⟨ev, here, ⟨_, _, _⟩, read, rfl⟩ := found
  exact ⟨ev.tags, piece_kind here ▸ (parseState_some read).2.2⟩

private theorem winning_metadata {won : UInt64 × Timestamp × StatePiece}
    (found : winning group events groupMetadata = some won) :
    ∃ name isPublic newcomerWait about channels overrides,
      won.2.2 = .metadata name isPublic newcomerWait about channels overrides := by
  obtain ⟨rows, read⟩ := winning_piece found
  simp only [parsePiece, ↓reduceIte, Option.map_eq_some_iff] at read
  obtain ⟨m, _, same⟩ := read
  exact ⟨_, _, _, _, _, _, same.symm⟩

private theorem winning_admins {won : UInt64 × Timestamp × StatePiece}
    (found : winning group events groupAdmins = some won) :
    ∃ owner assignments, won.2.2 = .admins owner assignments := by
  obtain ⟨rows, read⟩ := winning_piece found
  simp only [parsePiece, show groupAdmins ≠ groupMetadata by decide, ↓reduceIte,
    Option.map_eq_some_iff] at read
  obtain ⟨a, _, same⟩ := read
  exact ⟨_, _, same.symm⟩

private theorem winning_members {won : UInt64 × Timestamp × StatePiece}
    (found : winning group events groupMembers = some won) :
    ∃ members bans mutes, won.2.2 = .members members bans mutes := by
  obtain ⟨rows, read⟩ := winning_piece found
  simp only [parsePiece, show groupMembers ≠ groupMetadata by decide,
    show groupMembers ≠ groupAdmins by decide, ↓reduceIte, Option.map_eq_some_iff] at read
  obtain ⟨m, _, same⟩ := read
  exact ⟨_, _, _, same.symm⟩

private theorem winning_roles {won : UInt64 × Timestamp × StatePiece}
    (found : winning group events groupRoles = some won) : ∃ roles, won.2.2 = .roles roles := by
  obtain ⟨rows, read⟩ := winning_piece found
  simp only [parsePiece, show groupRoles ≠ groupMetadata by decide, show groupRoles ≠ groupAdmins by decide,
    show groupRoles ≠ groupMembers by decide, ↓reduceIte, Option.map_eq_some_iff] at read
  obtain ⟨roles, _, same⟩ := read
  exact ⟨roles, same.symm⟩

private theorem reading_kind (r : Reading) (kind : Kind) : r.kind (scan group events).pieces kind =
    (winning group events kind).map fun won =>
      Reading.piece { r with state := { r.state with
        seq := max r.state.seq won.1, cutoff := max r.state.cutoff won.2.1 } } won.2.2 := by
  unfold Reading.kind winning
  cases (scan group events).pieces[kind]? with
  | none => rfl
  | some ev =>
    cases read : parseState ev with
    | none => simp [read]
    | some parsed => simp [read]

/-- The fold starts from the winning snapshot, and only once there is one. -/
theorem snapshotState_eq : snapshotState group (scan group events) =
    (winners group events).map (·.state group (scan group events).creators) := by
  simp only [snapshotState, stateKinds, List.foldlM_cons, List.foldlM_nil, reading_kind]
  unfold winners
  cases metadata : winning group events groupMetadata with
  | none => rfl
  | some won₀ =>
  obtain ⟨s₀, d₀, piece₀⟩ := won₀
  obtain ⟨_, _, _, _, _, _, rfl⟩ := winning_metadata metadata
  cases admins : winning group events groupAdmins with
  | none => rfl
  | some won₁ =>
  obtain ⟨s₁, d₁, piece₁⟩ := won₁
  obtain ⟨_, _, rfl⟩ := winning_admins admins
  cases members : winning group events groupMembers with
  | none => rfl
  | some won₂ =>
  obtain ⟨s₂, d₂, piece₂⟩ := won₂
  obtain ⟨_, _, _, rfl⟩ := winning_members members
  cases roles : winning group events groupRoles with
  | none => rfl
  | some won₃ =>
    obtain ⟨s₃, d₃, piece₃⟩ := won₃
    obtain ⟨_, rfl⟩ := winning_roles roles
    simp only [Option.map_some, Option.bind_eq_bind, Option.bind_some, Option.pure_def, Reading.piece]
    rfl

end Read

end HitEnter.Group
