import HitEnter.Lib.Text
import HitEnter.Wire.Message

/-! A group announced on public relays, or no longer. -/

namespace HitEnter.Wire

open Lib.Decimal Lib.Text

def announcementKind : Kind := 39436
def groupsListKind : Kind := 10009

def maxAnnouncedName : ℕ := 64
def maxAbout : ℕ := 280
def maxLink : ℕ := 2048
def maxListed : ℕ := 500

/-- What a list shows of a group. -/
structure Announcement where
  group : PublicKey
  name : String
  about : String
  members : UInt64
  link : String
  date : Timestamp
deriving DecidableEq

/-- An announcement, or the withdrawal of one. -/
inductive Heard where
  | announced (a : Announcement)
  | withdrawn (group : PublicKey) (date : Timestamp)
deriving DecidableEq

def Heard.group : Heard → PublicKey
  | .announced a => a.group
  | .withdrawn group _ => group

def Heard.date : Heard → Timestamp
  | .announced a => a.date
  | .withdrawn _ date => date

def Heard.isWithdrawn : Heard → Bool
  | .announced _ => false
  | .withdrawn _ _ => true

section Sign
variable [Nostr]

def announce (group : PublicKey) (name about : String) (members : UInt64) (link : String) (date : Timestamp) : Event :=
  signed group date announcementKind
    ([["d", ""], ["name", name], ["members", members.toNat.repr], ["link", link]] ++
      if about = "" then [] else [["about", about]]) ""

def withdraw (group : PublicKey) (date : Timestamp) : Event :=
  signed group date announcementKind [["d", ""], ["private"]] ""

/-- A person's public groups, each with a relay where it has one. -/
def groupsList (me : PublicKey) (groups : List (PublicKey × Option String)) (date : Timestamp) : Event :=
  signed me date groupsListKind (groups.map fun entry => ["group", Nostr.toHex entry.1, entry.2.getD ""]) ""

end Sign

/-- The value of the first tag called `name`, which may have none. -/
def valueOf (event : Event) (name : String) : Option (Option String) :=
  (event.tags.find? fun tag => tag.head? == some name).map (·[1]?)

def isControl (c : Char) : Bool := c.toNat < 0x20 || (0x7f ≤ c.toNat && c.toNat < 0xa0)

def clean (text : String) : String := trim (.ofList (text.toList.map fun c => if isControl c then ' ' else c))

/-- Reads an announcement: `none` for anything not one. -/
def readAnnouncement [NostrEvents] (event : Event) : Option Heard :=
  if event.kind != announcementKind || !NostrEvents.verify event then none
  else if valueOf event "d" != some (some "") then none
  else if (valueOf event "private").isSome then some (.withdrawn event.pubkey event.createdAt)
  else do
    let name := clean (← (valueOf event "name").join)
    let about := ((valueOf event "about").join.map clean).getD ""
    let link ← (valueOf event "link").join
    if name = "" ∨ maxAnnouncedName < name.toList.length ∨ maxAbout < about.toList.length ∨
        maxLink < (Lib.Hex.bytes link).length then
      none
    else
      let members ← ((valueOf event "members").join).bind parseU64
      some (.announced { group := event.pubkey, name, about, members, link, date := event.createdAt })

/-- The group that a row of a list names. -/
def listedGroup [NostrEvents] (tag : Tag) : Option PublicKey :=
  if tag.head? == some "group" then tag[1]?.bind Nostr.fromHex else none

/-- Reads a groups list: its author and the groups it names. -/
def readGroupsList [NostrEvents] (event : Event) : Option (PublicKey × List PublicKey) :=
  if event.kind != groupsListKind || !NostrEvents.verify event then none
  else some (event.pubkey, (event.tags.filterMap listedGroup).take maxListed)

/-- Does `event` withdraw `group`? -/
def isWithdrawal (group : PublicKey) (event : Event) : Bool :=
  event.kind == announcementKind && event.pubkey == group && (valueOf event "private").isSome

/-- Does `event` announce `group`? -/
def isAnnouncement (group : PublicKey) (event : Event) : Bool :=
  event.kind == announcementKind && event.pubkey == group && (valueOf event "private").isNone

section Read
variable [NostrEvents] {group other : PublicKey} {date : Timestamp}

@[simp] theorem isWithdrawal_withdraw : isWithdrawal other (withdraw group date) = (group == other) := by
  simp [isWithdrawal, withdraw, signed, valueOf]

@[simp] theorem isWithdrawal_announce {name about link : String} {members : UInt64} :
    isWithdrawal other (announce group name about members link date) = false := by
  by_cases empty : about = "" <;> simp [isWithdrawal, announce, signed, valueOf, empty]

@[simp] theorem isAnnouncement_announce {name about link : String} {members : UInt64} :
    isAnnouncement other (announce group name about members link date) = (group == other) := by
  by_cases empty : about = "" <;> simp [isAnnouncement, announce, signed, valueOf, empty]

end Read

end HitEnter.Wire
