import HitEnter.Lib.Runs
import HitEnter.Lib.Turns
import HitEnter.Node.Accept

/-! A node as it runs: any number of calls and looks take turns over what it holds, under
its lock, while another process may write into the same store. -/

namespace HitEnter.Node

open Wire HitEnter.Group Lib.Runs Lib.Turns

/-- How far a look at every carried group has come, with the groups still to be read: it
counts a group's events, and folds them anew where an earlier look counted otherwise. -/
inductive Look where
  | waiting (left : List PublicKey)
  | reading (group : PublicKey) (left : List PublicKey)
  | comparing (group : PublicKey) (events : List Event) (left : List PublicKey)
  | settling (group : PublicKey) (state : Option GroupState) (left : List PublicKey)
  | purging (group : PublicKey) (left : List PublicKey)
  | removing (gone : List EventId) (left : List PublicKey)

inductive Task where
  | call (c : Call)
  | look (l : Look)

def Phase.isBusy : Phase → Bool
  | .waiting => false
  | .ended _ => false
  | _ => true

def Look.isBusy : Look → Bool
  | .waiting _ => false
  | _ => true

def Phase.isEnded : Phase → Bool
  | .ended _ => true
  | _ => false

def Look.isEnded : Look → Bool
  | .waiting [] => true
  | _ => false

section Lock
variable [Nostr]

/-- What a call takes before it is judged, and holds to its end: what changes a group's
state shuts out everything else of any group. -/
def Call.needs (call : Call) : Option Access :=
  if (groupOf call.event).isNone then none
  else if changesState call.event.kind then some .write
  else some .read

def Task.holds : Task → Option Access
  | .call c => if c.phase.isBusy then c.needs else none
  | .look l => if l.isBusy then some .write else none

end Lock

def Task.isEnded : Task → Bool
  | .call c => c.phase.isEnded
  | .look l => l.isEnded

section Steps
variable [NostrEvents]

def Look.next (look : Look) (node : Inner) : Inner × Look :=
  match look with
  | .waiting [] => (node, .waiting [])
  | .waiting (group :: left) => (node, .reading group left)
  | .reading group left => (node, .comparing group (node.store.groupEvents group) left)
  | .comparing group events left =>
    if node.folded[group]? = some events.length then (node, .waiting left)
    else
      ({ node with folded := node.folded.insert group events.length },
        -- The first look after the start takes the start's fold to be current.
        if (node.folded[group]?).isNone then .waiting left else .settling group (GroupState.fold group events) left)
  | .settling group state left => (node.setState group state, .purging group left)
  | .purging group left => (node, .removing (node.silenced group) left)
  | .removing gone left => (node.remove gone, .waiting left)

variable [Devices] [Wraps]

def Task.next (task : Task) (node : Inner) : Inner × Task :=
  match task with
  | .call c => ((c.next node).1, .call { c with phase := (c.next node).2 })
  | .look l => ((l.next node).1, .look (l.next node).2)

/-- The calls and looks of a node. -/
def tasks : System Inner Task where
  next := Task.next
  holds := Task.holds
  keeps task node access held := by
    cases task with
    | call c =>
      have needs : c.needs = some access := by
        simp only [Task.holds] at held
        split at held
        · exact held
        · cases held
      simp only [Task.next, Task.holds]
      split
      · exact .inl needs
      · exact .inr rfl
    | look l =>
      simp only [Task.holds] at held
      simp only [Task.next, Task.holds]
      split
      · split at held
        · exact .inl held
        · cases held
      · exact .inr rfl

end Steps

/-- A node that starts folds the groups it carries one after the other. -/
inductive Starting where
  | folding (left : List PublicKey)
  | up

structure Host [Nostr] extends World Inner Task where
  starting : Starting := .up

/-- What may happen next: the start goes on, a call or a look begins, a task takes its
turn, or another process writes an event. -/
inductive Host.Act where
  | load
  | enter (ev : Event) (source : Source) (now : Timestamp)
  | look
  | turn (i : ℕ)
  | write (ev : Event) (now : Timestamp)

namespace Host

section Steps
variable [NostrEvents] [Devices]

/-- A node about to start on what it has kept. -/
def begin (store : Store) (carried : List PublicKey) (me : PublicKey) (now : Timestamp)
    (received : BTreeMap EventId Timestamp) (grants : List (String × PublicKey)) : Host where
  shared := { store := store, groups := { me := me }, book := bookIn store now, received := received, grants := grants }
  starting := .folding carried

/-- A node that has started on what it has kept, with nothing under way. -/
def started (store : Store) (carried : List PublicKey) (me : PublicKey) (now : Timestamp)
    (received : BTreeMap EventId Timestamp) (grants : List (String × PublicKey)) : Host where
  shared := .start store carried me now received grants

def load (h : Host) : Host :=
  match h.starting with
  | .folding (group :: left) =>
    { h with
      shared := { h.shared with
        groups := (h.shared.groups.carry group).setState group (h.shared.foldOf group) }
      starting := .folding left }
  | .folding [] =>
    { h with
      shared := { h.shared with
        groups := (h.shared.store.query { kinds := some [inboxList] }).foldl
          (fun gs list => gs.setInboxes list.pubkey (inboxNpubs list)) h.shared.groups }
      starting := .up }
  | .up => h

/-- Takes on a task, once the node is up. -/
def take (h : Host) (task : Task) : Host :=
  match h.starting with
  | .folding _ => h
  | .up => { h with tasks := h.tasks ++ [task] }

variable [Wraps]

def step (h : Host) : Act → Host
  | .load => h.load
  | .enter ev source now => h.take (.call { event := ev, source := source, now := now })
  | .look => h.take (.look (.waiting h.shared.groups.carried.keys))
  | .turn i => { h with toWorld := tasks.turn h.toWorld i }
  | .write ev now => { h with shared := (h.shared.insert ev now).1 }

/-- The start, with nothing written meanwhile, comes to what starting is. -/
theorem run_load (store : Store) (carried : List PublicKey) (me : PublicKey) (now : Timestamp)
    (received : BTreeMap EventId Timestamp) (grants : List (String × PublicKey)) :
    run step (begin store carried me now received grants) (List.replicate (carried.length + 1) .load) =
      started store carried me now received grants := by
  suffices general : ∀ gs : Groups, run step
      { shared := { store := store, groups := gs, book := bookIn store now, received := received, grants := grants }
        starting := .folding carried } (List.replicate (carried.length + 1) .load) =
      { shared :=
          { store := store
            groups := (store.query { kinds := some [inboxList] }).foldl
              (fun gs list => gs.setInboxes list.pubkey (inboxNpubs list))
              (carried.foldl (fun gs group =>
                (gs.carry group).setState group (GroupState.fold group (store.groupEvents group))) gs)
            book := bookIn store now
            received := received
            grants := grants } } from
    general { me := me }
  induction carried with
  | nil => exact fun gs => rfl
  | cons group left ih =>
    intro gs
    rw [List.length_cons, List.replicate_succ]
    exact ih _

end Steps

end Host

end HitEnter.Node
