import HitEnter.Group.FoldSpec
import HitEnter.Lib.Runs
import HitEnter.Wire.Announce

/-! What a person publishes on public relays: their profile, the list of their public
groups, and an announcement of each public group whose key they hold, or its withdrawal.
A pass looks at all of it and sends each relay what it has not taken yet. -/

namespace HitEnter.App

open Wire HitEnter.Group

/-- A key in bech32. It is no plain word, and each key's own. -/
class Bech32 where
  npub : PublicKey → String
  npub_injective : Function.Injective npub
  npub_ne_profile : ∀ key, npub key ≠ "profile"
  npub_ne_groups : ∀ key, npub key ≠ "groups"

/-- What was said under a key, which relays took it, and when it was signed. -/
structure Sent where
  what : String := ""
  relays : List String := []
  at_ : UInt64 := 0

/-- The file `published.json`. -/
abbrev Published := BTreeMap String Sent

/-- Something sent to a relay, and whether the relay took it. -/
structure Sending where
  key : String
  event : Event
  url : String
  taken : Bool

/-- What a pass finds of a group: its state, whether its key is held, its public link, the
relay of an anchor, and what the clock says when it comes to the group. -/
structure Standing where
  group : PublicKey
  state : Option GroupState
  held : Except String Bool
  link : Except String String
  relay : Except String (Option String)
  signs : Except String Unit := .ok ()
  looked : Timestamp
  now : Timestamp

def announceEvery : UInt64 := 24 * 60 * 60

/-- A pass: what it finds, and what the relays answer. A profile is one, the relays of a
list differ, and so do the groups a node carries. -/
structure Pass where
  reads : Bool := true
  profile : Except String (Option Event)
  listGroups : Bool
  me : PublicKey
  now : Timestamp
  signs : Except String Unit := .ok ()
  groups : List Standing
  list : List String
  takes : String → String → Bool
  writes : Bool := true
  profiled : ∀ ev, profile = .ok (some ev) → ev.kind = Wire.profile
  apart : (groups.map Standing.group).Nodup
  distinct : list.Nodup

/-- What a pass has noted so far, and what it has sent. -/
abbrev Desk := Published × List Sending

/-- Sends `event`, which says `what`, to the relays of `list` that have not yet taken it,
and notes which do. -/
def sendPublic (desk : Desk) (key what : String) (event : Event) (list : List String) (takes : String → Bool) : Desk :=
  let noted := (desk.1[key]?).getD {}
  let sent : Sent := if noted.what ≠ what then { what := what, at_ := event.createdAt.secs } else noted
  let todo := list.filter fun url => !sent.relays.contains url
  (desk.1.insert key { sent with relays := sent.relays ++ todo.filter takes },
    desk.2 ++ todo.map fun url => { key := key, event := event, url := url, taken := takes url })

/-- The date of what is signed next under a key: after the one noted. -/
def nextDate (noted : Option Sent) (now : Timestamp) : Timestamp :=
  noted.elim now fun sent => max now ⟨sent.at_ + 1⟩

section Steps
variable [NostrEvents] [Bech32]

/-- The announcement of a group or its withdrawal; `none` where its key is not held. -/
def announcement (standing : Standing) (date : Timestamp) : Except String (Option Event) :=
  match standing.state with
  | none => .ok none
  | some s => do
    if !(← standing.held) then return none
    if s.isPublic then
      let link ← standing.link
      standing.signs
      return some (announce standing.group s.name s.about (UInt64.ofNat s.members.size) link date)
    else
      standing.signs
      return some (withdraw standing.group date)

/-- The public groups of a person, each with a relay. -/
def Pass.mine (pass : Pass) : Except String (List (PublicKey × Option String)) :=
  if pass.listGroups then
    (pass.groups.filter fun standing => standing.state.any fun s => s.isPublic && s.isMember pass.me).mapM fun standing =>
      standing.relay.map fun relay => (standing.group, relay)
  else .ok []

def Pass.sendProfile (pass : Pass) (desk : Desk) : Except Desk Desk :=
  match pass.profile with
  | .error _ => .error desk
  | .ok none => .ok desk
  | .ok (some profile) =>
    .ok (sendPublic desk "profile" (NostrEvents.eventIdToHex profile.id) profile pass.list (pass.takes "profile"))

/-- What the list says: the groups, without their relays. -/
def groupsWords (mine : List (PublicKey × Option String)) : String :=
  "groups\n" ++ "\n".intercalate (mine.map fun entry => Nostr.toHex entry.1)

def Pass.sendGroups (pass : Pass) (desk : Desk) : Except Desk Desk :=
  match pass.mine with
  | .error _ => .error desk
  | .ok mine =>
    if mine.isEmpty && !desk.1.contains "groups" then .ok desk
    else
      match pass.signs with
      | .error _ => .error desk
      | .ok _ => .ok (sendPublic desk "groups" (groupsWords mine)
          (groupsList pass.me mine (nextDate desk.1["groups"]? pass.now)) pass.list (pass.takes "groups"))

/-- Unchanged for a day, it is said again. -/
def refreshed (noted : Published) (key : String) (now : Timestamp) : Published :=
  match noted[key]? with
  | none => noted
  | some sent =>
    if sent.what ≠ "private" ∧ sent.at_ + announceEvery < now.secs then noted.insert key { sent with what := "" } else noted

/-- What an announcement says; one that does not read back says what a withdrawal does. -/
def announcementWords (event : Event) : String :=
  match readAnnouncement event with
  | some (.announced a) => "public\n" ++ a.name ++ "\n" ++ a.about ++ "\n" ++ a.members.toNat.repr ++ "\n" ++ a.link
  | _ => "private"

def Pass.sendGroup (pass : Pass) (desk : Desk) (standing : Standing) : Except Desk Desk :=
  let key := Bech32.npub standing.group
  let noted := refreshed desk.1 key standing.looked
  match announcement standing (nextDate noted[key]? standing.now) with
  | .error _ => .error (noted, desk.2)
  | .ok none => .ok (noted, desk.2)
  | .ok (some event) =>
    if announcementWords event = "private" ∧ ¬ noted.contains key then .ok (noted, desk.2)
    else .ok (sendPublic (noted, desk.2) key (announcementWords event) event pass.list (pass.takes key))

/-- The pass over everything; it stops at the first thing that goes wrong. -/
def Pass.over_ (pass : Pass) (noted : Published) : Except Desk Desk := do
  let desk ← pass.sendProfile (noted, [])
  let desk ← pass.sendGroups desk
  pass.groups.foldlM pass.sendGroup desk

end Steps

/-- What is in the file, and everything sent so far. -/
structure Outbox where
  file : Published := ∅
  log : List Sending := []

section Run
variable [NostrEvents] [Bech32]

/-- What a pass reads out of the file: nothing, where the file does not read. -/
def Outbox.noted (outbox : Outbox) (pass : Pass) : Published := if pass.reads then outbox.file else ∅

/-- Everything that is public is looked at once. A pass that stops early writes nothing down. -/
def publishPublicOnce (outbox : Outbox) (pass : Pass) : Outbox :=
  match pass.over_ (outbox.noted pass) with
  | .error desk => { outbox with log := outbox.log ++ desk.2 }
  | .ok desk => { file := if pass.writes then desk.1 else outbox.file, log := outbox.log ++ desk.2 }

end Run

theorem plainNpub_injective : Function.Injective fun key : PublicKey => "npub1" ++ plainToHex key := by
  intro a b same
  have hex : plainToHex a = plainToHex b := by simpa using same
  have read := plainFromHex_plainToHex a
  rw [hex, plainFromHex_plainToHex] at read
  exact (Option.some.inj read).symm

instance plainBech32 : Bech32 where
  npub key := "npub1" ++ plainToHex key
  npub_injective := plainNpub_injective
  npub_ne_profile key same := by
    have first := congrArg (fun text : String => text.toList.head?) same
    simp at first
  npub_ne_groups key same := by
    have first := congrArg (fun text : String => text.toList.head?) same
    simp at first

/-- The founder's pass over the club, in the state `edit` makes of it. -/
def clubPass (edit : GroupState → GroupState) (list : List String) (distinct : list.Nodup) (takers : List String)
    (now : Timestamp) : Pass where
  profile := .ok none
  listGroups := false
  me := founder
  now := now
  groups :=
    [{ group := club, state := (GroupState.fold club youngClub).map edit, held := .ok true, link := .ok "hit-enter:join",
       relay := .ok none, looked := now, now := now }]
  list := list
  takes _ url := takers.contains url
  profiled _ found := by cases found
  apart := List.nodup_singleton _
  distinct := distinct

def twoRelays : List String := ["wss://a.example.org", "wss://b.example.org"]

theorem twoRelays_nodup : twoRelays.Nodup := by decide

end HitEnter.App
