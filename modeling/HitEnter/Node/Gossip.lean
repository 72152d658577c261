import HitEnter.Lib.Runs
import HitEnter.Node.Reconcile

/-! Gossip connections: the gate asks once, after the handshake, whether a device
speaks for a member; later a connection is closed only where a step remembers to look
through the connections tracked. -/

namespace HitEnter.Node

open Wire HitEnter.Group Lib.Runs

/-- A gossip connection, of either direction. -/
structure Connection where
  id : Nat
  group : PublicKey
  device : EndpointId
deriving DecidableEq

/-- A node's gossip. `instances` has the connections each instance tracks; `gating`
are past the gate's check but not yet tracked, `passed` are through the gate,
`admitted` are handed to an instance, and `changing` are the groups whose state was
replaced and whose `groupChanged` is not over. -/
structure Gossips [Nostr] where
  book : BindingBook
  groups : Groups
  instances : BTreeMap PublicKey (List Connection) := ∅
  gating : List Connection := []
  passed : List Connection := []
  admitted : List Connection := []
  closed : List Connection := []
  changing : List PublicKey := []

namespace Gossips

variable [NostrEvents] [Devices]

/-- Through the binding book: the device proved its id in the handshake, the binding
proves the person. -/
def deviceIsMember (node : Gossips) (device : EndpointId) (group : PublicKey) (now : Timestamp) : Bool :=
  (node.groups.state group).any fun s => (node.book.personsOf device now).any s.isMember

def setState (node : Gossips) (group : PublicKey) (state : Option GroupState) : Gossips :=
  { node with
    groups := { node.groups with
      carried := if node.groups.carried.contains group then node.groups.carried.insert group state
        else node.groups.carried }
    changing := group :: node.changing }

/-- Are we a member of `group`? -/
def member (node : Gossips) (group : PublicKey) : Bool :=
  (node.groups.state group).any fun s => s.isMember node.groups.me

/-- A member joins the group's gossip. -/
def start (node : Gossips) (group : PublicKey) : Gossips :=
  if node.member group && !node.instances.contains group then
    { node with instances := node.instances.insert group [] }
  else node

/-- Who is no member leaves it; the instance shuts its connections down. -/
def stop (node : Gossips) (group : PublicKey) : Gossips :=
  if !node.member group && node.instances.contains group then
    { node with
      instances := node.instances.erase group
      closed := (node.instances[group]?).getD [] ++ node.admitted.filter (·.group = group) ++ node.closed }
  else node

/-- Closes every tracked connection of `group` whose device is no member's now. -/
def revoke (node : Gossips) (group : PublicKey) (now : Timestamp) : Gossips :=
  let live := ((node.instances[group]?).getD []).filter fun conn => !node.closed.contains conn
  { node with
    instances := if node.instances.contains group then
        node.instances.insert group (live.filter fun conn => node.deviceIsMember conn.device group now)
      else node.instances
    closed := (live.filter fun conn => !node.deviceIsMember conn.device group now) ++ node.closed
    changing := node.changing.filter (· ≠ group) }

/-- The gate's one question, after the handshake. -/
def check (node : Gossips) (conn : Connection) (now : Timestamp) : Gossips :=
  if node.deviceIsMember conn.device conn.group now then { node with gating := conn :: node.gating }
  else { node with closed := conn :: node.closed }

/-- Remembers a gated connection, so it can be revoked. -/
def track (node : Gossips) (conn : Connection) : Gossips :=
  if node.gating.contains conn then
    { node with
      gating := node.gating.filter (· ≠ conn)
      passed := conn :: node.passed
      instances := match node.instances[conn.group]? with
        | some live => node.instances.insert conn.group ((live.filter fun c => !node.closed.contains c) ++ [conn])
        | none => node.instances }
  else node

/-- Hands an incoming connection that has passed the gate to the group's instance. -/
def admitConn (node : Gossips) (conn : Connection) : Gossips :=
  if node.passed.contains conn then
    if node.instances.contains conn.group then { node with admitted := conn :: node.admitted }
    else { node with closed := conn :: node.closed }
  else node

/-- What happens on a node that bears on its gossip: a binding or revocation reaches
the book, a group is folded anew, the three parts of `groupChanged`, the two of the
gate, a connection handed over, a connection that ends by itself. -/
inductive Act where
  | learn (event : Event) (now : Timestamp)
  | setState (group : PublicKey) (state : Option GroupState)
  | start (group : PublicKey)
  | stop (group : PublicKey)
  | revoke (group : PublicKey) (now : Timestamp)
  | check (conn : Connection) (now : Timestamp)
  | track (conn : Connection)
  | admitConn (conn : Connection)
  | drop (conn : Connection)

def step (node : Gossips) : Act → Gossips
  | .learn event now => { node with book := (node.book.insert event now).1 }
  | .setState group state => node.setState group state
  | .start group => node.start group
  | .stop group => node.stop group
  | .revoke group now => node.revoke group now
  | .check conn now => node.check conn now
  | .track conn => node.track conn
  | .admitConn conn => node.admitConn conn
  | .drop conn => { node with closed := conn :: node.closed }

/-- The people the book binds `device` to, expired or not. -/
def namedBy (book : BindingBook) (device : EndpointId) : List PublicKey :=
  (book.newest.toList.filter fun entry =>
    (ofLex entry.1).2 == Devices.toText device && !isRevoked entry.2).map fun entry => (ofLex entry.1).1

/-- The book binds the connection's device to a member of its group. -/
def belongs (node : Gossips) (conn : Connection) : Bool :=
  (node.groups.state conn.group).any fun s => (namedBy node.book conn.device).any s.isMember

def tracked (node : Gossips) (group : PublicKey) : List Connection := (node.instances[group]?).getD []

/-- An open connection that is tracked or admitted. -/
def Live (node : Gossips) (conn : Connection) : Prop :=
  conn ∉ node.closed ∧ (conn ∈ node.tracked conn.group ∨ conn ∈ node.admitted)

/-- No gate between its two parts, and no group between its fold and its last close. -/
def Quiet (node : Gossips) : Prop := node.gating = [] ∧ node.changing = []

/-- The open connections past the gate's check. -/
def known (node : Gossips) : List Connection :=
  (node.gating ++ node.admitted ++ node.instances.toList.flatMap (·.2)).filter fun conn => !node.closed.contains conn

/-- When a step keeps the gossip to members: what the book learns takes from no known
connection its last member; the connections of a group that a `revoke` does not see,
gated but not tracked yet or admitted without being tracked, are still members'; and so
is one admitted without being tracked, unless its group is still changing. -/
def meets (node : Gossips) : Act → Bool
  | .learn event now => node.known.all fun conn =>
    !node.belongs conn || { node with book := (node.book.insert event now).1 }.belongs conn
  | .revoke group _ => node.known.all fun conn =>
    conn.group != group || (node.tracked group).contains conn || node.belongs conn
  | .admitConn conn => node.closed.contains conn || node.changing.contains conn.group ||
    (node.tracked conn.group).contains conn || node.belongs conn
  | _ => true

theorem mem_namedBy {book : BindingBook} {device : EndpointId} {now : Timestamp} {person : PublicKey}
    (speaks : person ∈ book.personsOf device now) : person ∈ namedBy book device := by
  simp only [BindingBook.personsOf, List.mem_map, List.mem_filter, Bool.and_eq_true] at speaks
  obtain ⟨entry, ⟨member, ⟨device, bound⟩, _⟩, same⟩ := speaks
  exact List.mem_map.mpr ⟨entry, List.mem_filter.mpr ⟨member, by simp [device, bound]⟩, same⟩

private theorem mem_namedBy_iff {book : BindingBook} {device : EndpointId} {person : PublicKey} :
    person ∈ namedBy book device ↔
      ∃ held, book.newest[toLex (person, Devices.toText device)]? = some held ∧ isRevoked held = false := by
  simp only [namedBy, List.mem_map, List.mem_filter, Bool.and_eq_true, beq_iff_eq, Bool.not_eq_true']
  constructor
  · rintro ⟨⟨key, held⟩, ⟨member, named, bound⟩, rfl⟩
    rw [← named]
    exact ⟨held, Std.ExtTreeMap.mem_toList_iff_getElem?_eq_some.mp member, bound⟩
  · rintro ⟨held, found, bound⟩
    exact ⟨(toLex (person, Devices.toText device), held),
      ⟨Std.ExtTreeMap.mem_toList_iff_getElem?_eq_some.mpr found, rfl, bound⟩, rfl⟩

/-- Only a revocation of its device takes a connection its last member. -/
theorem revocation_of_not_belongs {node : Gossips} {conn : Connection} {event : Event} {now : Timestamp}
    (before : node.belongs conn = true) (after : (node.step (.learn event now)).belongs conn = false) :
    isRevoked event = true ∧ Nostr.identifier event.tags = some (Devices.toText conn.device) := by
  simp only [belongs, Option.any_eq_true, List.any_eq_true] at before
  obtain ⟨s, held, person, named, member⟩ := before
  obtain ⟨binding, found, bound⟩ := mem_namedBy_iff.mp named
  have lost : person ∉ namedBy (node.book.insert event now).1 conn.device := by
    intro still
    have belongs : (node.step (.learn event now)).belongs conn = true := by
      simp only [Gossips.belongs, Option.any_eq_true, List.any_eq_true]
      exact ⟨s, held, person, still, member⟩
    simp [belongs] at after
  rcases node.book.insert_cases event now with ⟨_, same⟩ | ⟨deviceHex, _, checked, _, slots⟩
  · rw [same] at lost
    exact absurd named lost
  · rw [mem_namedBy_iff, slots] at lost
    split at lost
    · rename_i same
      simp only [EmbeddingLike.apply_eq_iff_eq, Prod.mk.injEq] at same
      rw [found] at lost
      refine ⟨?_, same.2 ▸ checked.named⟩
      by_contra unrevoked
      refine lost ?_
      cases wins : replaces event binding with
      | true => exact ⟨event, by simp [Lib.KeepBest.offer, wins], by simpa using unrevoked⟩
      | false => exact ⟨binding, by simp [Lib.KeepBest.offer, wins], bound⟩
    · exact absurd ⟨binding, found, bound⟩ lost

theorem belongs_of_deviceIsMember {node : Gossips} {conn : Connection} {now : Timestamp}
    (allowed : node.deviceIsMember conn.device conn.group now = true) : node.belongs conn = true := by
  simp only [deviceIsMember, belongs, Option.any_eq_true, List.any_eq_true] at allowed ⊢
  obtain ⟨s, held, person, speaks, member⟩ := allowed
  exact ⟨s, held, person, mem_namedBy speaks, member⟩

/-- A known connection: past the gate's check, tracked or admitted, and open. -/
private def Known (node : Gossips) (conn : Connection) : Prop :=
  conn ∉ node.closed ∧ (conn ∈ node.gating ∨ conn ∈ node.admitted ∨ conn ∈ node.tracked conn.group)

omit [Devices] in
private theorem mem_known {node : Gossips} {conn : Connection} (known : Known node conn) : conn ∈ node.known := by
  obtain ⟨opened, place⟩ := known
  refine List.mem_filter.mpr ⟨?_, by simpa using opened⟩
  rcases place with gating | admitted | tracked
  · simp [gating]
  · simp [admitted]
  · refine List.mem_append_right _ (List.mem_flatMap.mpr ?_)
    rw [Gossips.tracked] at tracked
    cases found : node.instances[conn.group]? with
    | none => simp [found] at tracked
    | some live =>
      refine ⟨(conn.group, live), Std.ExtTreeMap.mem_toList_iff_getElem?_eq_some.mpr found, ?_⟩
      simpa [found] using tracked

/-- Every known connection is a member's, except in a group that is still changing. -/
private def Kept (node : Gossips) : Prop :=
  ∀ conn, Known node conn → node.belongs conn = true ∨ conn.group ∈ node.changing

section Steps
variable {node : Gossips} {group : PublicKey} {conn : Connection} {now : Timestamp}

private theorem Kept.setState (kept : Kept node) (state : Option GroupState) : Kept (node.setState group state) := by
  intro conn known
  by_cases same : conn.group = group
  · exact .inr (by simp [Gossips.setState, same])
  · refine (kept conn known).imp (fun belongs => ?_) fun changing => List.mem_cons_of_mem group changing
    have others : (node.setState group state).groups.state conn.group = node.groups.state conn.group := by
      simp only [Groups.state, Gossips.setState]
      split
      · simp [Std.ExtTreeMap.getElem?_insert, Ne.symm same]
      · rfl
    rw [Gossips.belongs, others]
    exact belongs

private theorem Kept.start (kept : Kept node) : Kept (node.start group) := by
  unfold Gossips.start
  split
  · intro conn known
    refine kept conn ⟨known.1, known.2.imp_right (·.imp_right fun tracked => ?_)⟩
    simp only [Gossips.tracked, Std.ExtTreeMap.getElem?_insert] at tracked
    split at tracked
    · simp at tracked
    · exact tracked
  · exact kept

private theorem Kept.stop (kept : Kept node) : Kept (node.stop group) := by
  unfold Gossips.stop
  split
  · rintro conn ⟨opened, place⟩
    refine kept conn ⟨fun closed => opened (List.mem_append_right _ closed), place.imp_right (·.imp_right fun tracked => ?_)⟩
    simp only [Gossips.tracked, Std.ExtTreeMap.getElem?_erase] at tracked
    split at tracked
    · simp at tracked
    · exact tracked
  · exact kept

private theorem Kept.check (kept : Kept node) : Kept (node.check conn now) := by
  unfold Gossips.check
  split
  · rename_i allowed
    rintro other ⟨opened, gating | place⟩
    · rcases List.mem_cons.mp gating with rfl | earlier
      · exact .inl (belongs_of_deviceIsMember allowed)
      · exact kept other ⟨opened, .inl earlier⟩
    · exact kept other ⟨opened, .inr place⟩
  · rintro other ⟨opened, place⟩
    exact kept other ⟨fun closed => opened (List.mem_cons_of_mem conn closed), place⟩

private theorem Kept.track (kept : Kept node) : Kept (node.track conn) := by
  unfold Gossips.track
  split
  · rename_i gated
    have gated : conn ∈ node.gating := by simpa using gated
    rintro other ⟨opened, gating | admitted | tracked⟩
    · exact kept other ⟨opened, .inl (List.mem_filter.mp gating).1⟩
    · exact kept other ⟨opened, .inr (.inl admitted)⟩
    · simp only [Gossips.tracked] at tracked
      split at tracked
      · rename_i live found
        simp only [Std.ExtTreeMap.getElem?_insert, Std.LawfulEqCmp.compare_eq_iff_eq] at tracked
        split at tracked
        · rename_i same
          simp only [Option.getD_some, List.mem_append, List.mem_filter, List.mem_singleton] at tracked
          rcases tracked with ⟨earlier, _⟩ | rfl
          · exact kept other ⟨opened, .inr (.inr (by simpa [Gossips.tracked, ← same, found] using earlier))⟩
          · exact kept other ⟨opened, .inl gated⟩
        · exact kept other ⟨opened, .inr (.inr tracked)⟩
      · exact kept other ⟨opened, .inr (.inr tracked)⟩
  · exact kept

private theorem Kept.admitConn (kept : Kept node) (met : node.meets (.admitConn conn) = true) : Kept (node.admitConn conn) := by
  unfold Gossips.admitConn
  split
  · split
    · rintro other ⟨opened, gating | admitted | tracked⟩
      · exact kept other ⟨opened, .inl gating⟩
      · rcases List.mem_cons.mp admitted with rfl | earlier
        · simp only [Gossips.meets, Bool.or_eq_true, List.contains_iff_mem] at met
          rcases met with ((closed | changing) | tracked) | belongs
          · exact absurd closed opened
          · exact .inr changing
          · exact kept other ⟨opened, .inr (.inr tracked)⟩
          · exact .inl belongs
        · exact kept other ⟨opened, .inr (.inl earlier)⟩
      · exact kept other ⟨opened, .inr (.inr tracked)⟩
    · rintro other ⟨opened, place⟩
      exact kept other ⟨fun closed => opened (List.mem_cons_of_mem conn closed), place⟩
  · exact kept

private theorem Kept.revoke (kept : Kept node) (met : node.meets (.revoke group now) = true) :
    Kept (node.revoke group now) := by
  rintro conn ⟨opened, place⟩
  have opened' : conn ∉ node.closed := fun closed => opened (List.mem_append_right _ closed)
  have place' : conn ∈ node.gating ∨ conn ∈ node.admitted ∨ conn ∈ node.tracked conn.group := by
    refine place.imp_right (·.imp_right fun tracked => ?_)
    simp only [Gossips.tracked, Gossips.revoke] at tracked
    split at tracked
    · simp only [Std.ExtTreeMap.getElem?_insert, Std.LawfulEqCmp.compare_eq_iff_eq] at tracked
      split at tracked
      · rename_i same
        simp only [Option.getD_some, List.mem_filter] at tracked
        exact same ▸ tracked.1.1
      · exact tracked
    · exact tracked
  have known : Known node conn := ⟨opened', place'⟩
  by_cases same : conn.group = group
  · left
    subst same
    simp only [Gossips.meets, List.all_eq_true] at met
    have seen := met conn (mem_known known)
    simp only [bne_self_eq_false, Bool.false_or, Bool.or_eq_true, List.contains_iff_mem] at seen
    rcases seen with tracked | belongs
    · -- a tracked connection that stayed open was allowed
      cases allowed : node.deviceIsMember conn.device conn.group now with
      | true => exact belongs_of_deviceIsMember allowed
      | false =>
        refine absurd (List.mem_append_left _ (List.mem_filter.mpr ⟨List.mem_filter.mpr ⟨tracked, ?_⟩, ?_⟩)) opened
        · simpa using opened'
        · simp [allowed]
    · exact belongs
  · refine (kept conn known).imp id fun changing => ?_
    exact List.mem_filter.mpr ⟨changing, by simpa using same⟩

private theorem Kept.learn (kept : Kept node) {event : Event} (met : node.meets (.learn event now) = true) :
    Kept (node.step (.learn event now)) := by
  rintro conn known
  refine (kept conn known).imp_left fun belongs => ?_
  simp only [Gossips.meets, List.all_eq_true, Bool.or_eq_true, Bool.not_eq_true'] at met
  rcases met conn (mem_known known) with stranger | stays
  · rw [belongs] at stranger
    cases stranger
  · exact stays

private theorem Kept.step {act : Act} (met : node.meets act = true) (kept : Kept node) : Kept (node.step act) := by
  cases act with
  | learn event now => exact kept.learn met
  | setState group state => exact kept.setState state
  | start group => exact kept.start
  | stop group => exact kept.stop
  | revoke group now => exact kept.revoke met
  | check conn now => exact kept.check
  | track conn => exact kept.track
  | admitConn conn => exact kept.admitConn met
  | drop conn =>
    rintro other ⟨opened, place⟩
    exact kept other ⟨fun closed => opened (List.mem_cons_of_mem conn closed), place⟩

end Steps

/-- From a node without connections, as long as every step keeps the gossip to members,
every live connection at rest is with a device that the book binds to a member. -/
theorem gossip_members (node : Gossips) (empty : node.known = []) (acts : List Act)
    (met : Met meets step node acts) (quiet : (run step node acts).Quiet) {conn : Connection}
    (live : (run step node acts).Live conn) : (run step node acts).belongs conn = true := by
  have initial : Kept node := fun conn known => by
    have member := mem_known known
    simp [empty] at member
  have kept : Kept (run step node acts) := run_invariant (fun _ _ met kept => kept.step met) met initial
  rcases kept conn ⟨live.1, .inr live.2.symm⟩ with belongs | changing
  · exact belongs
  · simp [quiet.2] at changing

end Gossips

/-- The guest's laptop, on the club's gossip. -/
def guestsLine : Connection := ⟨0, club, laptop⟩

/-- The owner's node knows the guest's laptop, and has no connections yet. -/
def ownersNode (s : GroupState) : Gossips where
  book := (BindingBook.insert .new (signBinding guest laptop 100 1000) 100).1
  groups := ownersGroups s

/-- The laptop is let in, and tracked, and then the guest leaves. -/
def guestLeaves (left : GroupState) : List Gossips.Act :=
  [.start club, .check guestsLine 120, .track guestsLine, .admitConn guestsLine, .setState club (some left),
    .start club, .stop club, .revoke club 220]

theorem gossip_members_guestLeaves : ∃ s left, GroupState.fold club youngClub = some s ∧
    GroupState.fold club (youngClub ++ [(Draft.leave club).sign guest 210]) = some left ∧
      ¬ (run Gossips.step (ownersNode s) (guestLeaves left)).Live guestsLine := by
  have checked : ((GroupState.fold club youngClub).any fun s =>
      (GroupState.fold club (youngClub ++ [(Draft.leave club).sign guest 210])).any fun left =>
        (ownersNode s).known.isEmpty && decide (Met Gossips.meets Gossips.step (ownersNode s) (guestLeaves left)) &&
          (run Gossips.step (ownersNode s) (guestLeaves left)).gating.isEmpty &&
          (run Gossips.step (ownersNode s) (guestLeaves left)).changing.isEmpty &&
          !(run Gossips.step (ownersNode s) (guestLeaves left)).belongs guestsLine) = true := by
    decide +kernel
  obtain ⟨s, folds, passes⟩ := (Option.any_eq_true _ _).mp checked
  obtain ⟨left, folds', passes⟩ := (Option.any_eq_true _ _).mp passes
  simp only [Bool.and_eq_true, decide_eq_true_eq, List.isEmpty_iff, Bool.not_eq_true'] at passes
  obtain ⟨⟨⟨⟨empty, met⟩, gates⟩, settled⟩, stranger⟩ := passes
  refine ⟨s, left, folds, folds', fun live => ?_⟩
  have belongs := Gossips.gossip_members (ownersNode s) empty (guestLeaves left) met ⟨gates, settled⟩ live
  simp [stranger] at belongs

/-- The laptop is let in, and tracked, and then revoked. -/
def laptopRevoked : List Gossips.Act :=
  [.start club, .check guestsLine 120, .track guestsLine, .learn (signRevocation guest laptop 130) 130]

/-- A device that has been revoked keeps its gossip connection. -/
theorem laptopRevoked_live : ∃ s, GroupState.fold club youngClub = some s ∧ (ownersNode s).known = [] ∧
    (ownersGroups s).judge (signRevocation guest laptop 130) 130 = .ok .store ∧
    (run Gossips.step (ownersNode s) laptopRevoked).Quiet ∧
    (run Gossips.step (ownersNode s) laptopRevoked).Live guestsLine ∧
    (run Gossips.step (ownersNode s) laptopRevoked).belongs guestsLine = false := by
  have checked : ((GroupState.fold club youngClub).any fun s => (ownersNode s).known.isEmpty &&
      decide (((ownersGroups s).judge (signRevocation guest laptop 130) 130).toOption = some .store) &&
      (run Gossips.step (ownersNode s) laptopRevoked).gating.isEmpty &&
      (run Gossips.step (ownersNode s) laptopRevoked).changing.isEmpty &&
      !(run Gossips.step (ownersNode s) laptopRevoked).closed.contains guestsLine &&
      ((run Gossips.step (ownersNode s) laptopRevoked).tracked club).contains guestsLine &&
      !(run Gossips.step (ownersNode s) laptopRevoked).belongs guestsLine) = true := by
    decide +kernel
  obtain ⟨s, folds, passes⟩ := (Option.any_eq_true _ _).mp checked
  simp only [Bool.and_eq_true, decide_eq_true_eq, List.isEmpty_iff, Bool.not_eq_true', List.contains_eq_mem,
    decide_eq_false_iff_not] at passes
  obtain ⟨⟨⟨⟨⟨⟨empty, judged⟩, gates⟩, settled⟩, opened⟩, tracked⟩, stranger⟩ := passes
  refine ⟨s, folds, empty, ?_, ⟨gates, settled⟩, ⟨opened, .inl tracked⟩, stranger⟩
  cases verdict : (ownersGroups s).judge (signRevocation guest laptop 130) 130 with
  | error refusal => simp [verdict, Except.toOption] at judged
  | ok judgement => simpa [verdict, Except.toOption] using judged

end HitEnter.Node
