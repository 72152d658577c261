import HitEnter.Node.HostSpec
import HitEnter.Wire.Build

/-! What a person does in a group from this node. An action is signed, dated after their last
one of its kind in its group, and published; any number of them, and all else the node
does, take turns. -/

namespace HitEnter.Node

open Wire HitEnter.Group

/-- The kinds that are dated after one's last of the kind. -/
def ordered : List Kind := [putUser, removeUser, editMetadata, muteUser]

/-- An action before it is signed, as each builder of one makes it: the group's tag, and then
the rest. -/
structure Deed where
  kind : Kind
  group : PublicKey
  rest : List Tag

/-- How far a call that signs and publishes has come; once published, which of the host's
tasks accepts its event. -/
inductive Signing.Stage where
  | signed
  | dated
  | published (task : ℕ)
deriving DecidableEq

structure Signing where
  deed : Deed
  event : Event
  stage : Signing.Stage := .signed

def Signing.Stage.isDated : Signing.Stage → Bool
  | .signed => false
  | _ => true

section Date
variable [Nostr]

def Deed.draft (deed : Deed) : Draft := ⟨deed.kind, Draft.h deed.group :: deed.rest⟩

/-- The date of the last action of `kind` by `person` in `group` that is held. -/
def Store.lastOf (s : Store) (person : PublicKey) (kind : Kind) (group : PublicKey) : Option Timestamp :=
  (((s.groupEvents group).filter fun ev => ev.pubkey == person && ev.kind == kind).map Event.createdAt).max?

/-- The event as it is published: signed anew with a later date, if it is not after the last. -/
def Store.redate (s : Store) (person : PublicKey) (draft : Draft) (ev : Event) : Event :=
  if !ordered.contains ev.kind then ev
  else match groupOf ev with
    | none => ev
    | some group =>
      match s.lastOf person ev.kind group with
      | none => ev
      | some n => if ev.createdAt ≤ n then draft.sign person (Nostr.add n 1) else ev

end Date

/-- A person at their node, with the calls under way that sign and publish. -/
structure Author [Nostr] where
  host : Host
  me : PublicKey
  signings : List Signing := []

/-- What may happen next: anything the node does, a new call signs its event, or a call reads
what is held and dates its event anew, or publishes it. -/
inductive Author.Act where
  | host (act : Host.Act)
  | sign (deed : Deed) (now : Timestamp)
  | date (i : ℕ)
  | publish (i : ℕ) (now : Timestamp)

namespace Author

section Steps
variable [NostrEvents] [Devices] [Wraps]

/-- Call `i` has read what is held, and dates its event. -/
def date (a : Author) (i : ℕ) : Author :=
  match a.signings[i]? with
  | some ⟨deed, ev, .signed⟩ =>
    { a with signings := a.signings.set i ⟨deed, a.host.shared.store.redate a.me deed.draft ev, .dated⟩ }
  | _ => a

/-- Call `i` has its event accepted as its own. -/
def publish (a : Author) (i : ℕ) (now : Timestamp) : Author :=
  match a.signings[i]?, a.host.starting with
  | some ⟨deed, ev, .dated⟩, .up =>
    { a with
      host := a.host.step (.enter ev .local_ now)
      signings := a.signings.set i ⟨deed, ev, .published a.host.tasks.length⟩ }
  | _, _ => a

def step (a : Author) : Act → Author
  | .host act => { a with host := a.host.step act }
  | .sign deed now => { a with signings := a.signings ++ [⟨deed, deed.draft.sign a.me now, .signed⟩] }
  | .date i => a.date i
  | .publish i now => a.publish i now

end Steps

section Verdicts
variable [Nostr]

/-- What became of the event of a call that has returned. -/
def verdict (a : Author) (s : Signing) : Option Verdict :=
  match s.stage with
  | .published task =>
    match a.host.tasks[task]? with
    | some (.call ⟨_, _, _, .ended verdict⟩) => some verdict
    | _ => none
  | _ => none

def isAccepted (a : Author) (s : Signing) : Bool := (a.verdict s).any Verdict.accepted

def isRefused (a : Author) (s : Signing) : Bool := (a.verdict s).any fun verdict => !verdict.accepted

/-- Is `s` under way, its event dated and of the kind, group and date of `ev`? -/
def rivals (a : Author) (deed : Deed) (ev : Event) (s : Signing) : Bool :=
  s.stage.isDated && (a.verdict s).isNone && s.deed.kind == deed.kind && s.deed.group == deed.group &&
    s.event.createdAt == ev.createdAt

/-- Whoever dates its event finds the last date short of the last there is, and gives it no
date that another under way has. -/
def clear (a : Author) : Act → Bool
  | .date i =>
    match a.signings[i]? with
    | some ⟨deed, ev, .signed⟩ =>
      ((a.host.shared.store.lastOf a.me deed.kind deed.group).all fun n => n.toNat + 1 < 2 ^ 64) &&
        a.signings.all fun s => !a.rivals deed (a.host.shared.store.redate a.me deed.draft ev) s
    | _ => true
  | _ => true

/-- Every event that is brought in is one of `known`, and what is stored has the id of no
other row. -/
def names (known : List Event) (a : Author) : Act → Bool
  | .host (.turn i) =>
    match a.host.tasks[i]? with
    | some (.call ⟨ev, _, _, .storing⟩) => a.host.shared.store.events.all fun row => row.id != ev.id || row == ev
    | _ => true
  | .host act => act.brings.all known.contains
  | .publish i _ => (a.signings[i]?).all fun s => known.contains s.event
  | _ => true

/-- The events are of `known`, and no two calls date theirs alike. -/
def meets (known : List Event) (a : Author) (act : Act) : Bool := a.clear act && a.names known act

end Verdicts

end Author

end HitEnter.Node
