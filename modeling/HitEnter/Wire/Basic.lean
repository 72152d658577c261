import HitEnter.Lib.Decimal

/-! Signed events as the program holds them once their id and signature have
been checked, and the kinds a group uses. Keys, ids and dates are the
program's own fixed-width values; what the program only borrows from the
`nostr` crate is collected in the class `Nostr`. -/

namespace HitEnter.Wire

open Lib.Decimal

/-- A 32-byte public key: of a person, or of a group. -/
structure PublicKey where
  bytes : BitVec 256

/-- A 32-byte event id. -/
structure EventId where
  bytes : BitVec 256

/-- Seconds since the epoch, a `u64`. -/
structure Timestamp where
  secs : UInt64

def PublicKey.toNat (key : PublicKey) : Nat := key.bytes.toNat

def EventId.toNat (id : EventId) : Nat := id.bytes.toNat

def Timestamp.toNat (date : Timestamp) : Nat := date.secs.toNat

theorem PublicKey.toNat_injective : Function.Injective PublicKey.toNat := by
  rintro ⟨a⟩ ⟨b⟩ same
  simpa [PublicKey.toNat, BitVec.toNat_inj] using same

theorem EventId.toNat_injective : Function.Injective EventId.toNat := by
  rintro ⟨a⟩ ⟨b⟩ same
  simpa [EventId.toNat, BitVec.toNat_inj] using same

theorem Timestamp.toNat_injective : Function.Injective Timestamp.toNat := by
  rintro ⟨a⟩ ⟨b⟩ same
  simpa [Timestamp.toNat, UInt64.toNat_inj] using same

instance : LinearOrder PublicKey := LinearOrder.lift' PublicKey.toNat PublicKey.toNat_injective

instance : LinearOrder EventId := LinearOrder.lift' EventId.toNat EventId.toNat_injective

instance : LinearOrder Timestamp := LinearOrder.lift' Timestamp.toNat Timestamp.toNat_injective

instance : Std.TransOrd PublicKey := inferInstance

instance : Std.TransOrd EventId := inferInstance

instance : Std.LawfulEqOrd PublicKey := ⟨compare_eq_iff_eq.mp⟩

instance : Std.LawfulEqOrd EventId := ⟨compare_eq_iff_eq.mp⟩

instance : OfNat Timestamp n := ⟨⟨OfNat.ofNat n⟩⟩

/-- The program's ordered maps and sets. Equality is by content, and reading
one off in order is `toList`. -/
abbrev BTreeMap (K V : Type) [Ord K] := Std.ExtTreeMap K V compare

abbrev BTreeSet (K : Type) [Ord K] := Std.ExtTreeSet K compare

abbrev Kind := UInt16

/-- A tag's cells; the first is its name. -/
abbrev Tag := List String

/-- An event whose id and signature were checked on the way in. -/
structure Event where
  id : EventId
  pubkey : PublicKey
  createdAt : Timestamp
  kind : Kind
  tags : List Tag
  content : String
deriving DecidableEq

/-- What the program takes from the `nostr` crate. `fromHex` and `toHex` are
`PublicKey::from_hex` and `to_hex`, `identifier` is `Tags::identifier`,
`eventId` the id a builder gives the event it signs, and `add` a timestamp plus
seconds. The two laws are the crate's documented behaviour: a key's own text
reads back, and a first tag `d` is the identifier. -/
class Nostr where
  fromHex : String → Option PublicKey
  toHex : PublicKey → String
  identifier : List Tag → Option String
  eventId : PublicKey → Timestamp → Kind → List Tag → String → EventId
  add : Timestamp → UInt64 → Timestamp
  fromHex_toHex : ∀ key, fromHex (toHex key) = some key
  identifier_cons : ∀ value rest, identifier (["d", value] :: rest) = some value

attribute [simp] Nostr.fromHex_toHex Nostr.identifier_cons

def chatMessage : Kind := 9
def reaction : Kind := 7
def deletion : Kind := 5
def presence : Kind := 20436
def voicePresence : Kind := 20437
def zapCarrier : Kind := 9436
def putUser : Kind := 9000
def removeUser : Kind := 9001
def editMetadata : Kind := 9002
def deleteEvent : Kind := 9005
def muteUser : Kind := 9030
def createGroup : Kind := 9007
def createInvite : Kind := 9009
def join : Kind := 9021
def leave : Kind := 9022
def groupMetadata : Kind := 39000
def groupAdmins : Kind := 39001
def groupMembers : Kind := 39002
def groupRoles : Kind := 39003
def deviceBinding : Kind := 30436

/-- Kinds posted in a channel. -/
def channelKinds : List Kind := [chatMessage, reaction, deletion, deleteEvent, zapCarrier]

/-- The four state kinds, in the order a snapshot is signed. -/
def stateKinds : List Kind := [groupMetadata, groupAdmins, groupMembers, groupRoles]

/-- The actions the fold reads. -/
def actionKinds : List Kind :=
  [putUser, removeUser, editMetadata, muteUser, createInvite, join, leave]

/-- The role every member holds; defined like any other, never assigned. -/
def defaultRole : String := "member"

/-- The marker on the owner's entry. Not a role: no role may use it. -/
def ownerMark : String := "owner"

/-- Does `kind` belong to a group? -/
def isGroupKind (kind : Kind) : Bool :=
  channelKinds.contains kind || kind == presence || kind == voicePresence ||
    kind == createGroup || stateKinds.contains kind || actionKinds.contains kind

/-- The first value of the first tag called `name` that has one. -/
def firstValue (event : Event) (name : String) : Option String :=
  event.tags.findSome? fun
    | cell :: value :: _ => if cell = name then some value else none
    | _ => none

/-- The `seq` of a state event. -/
def seqOf (event : Event) : Option UInt64 := (firstValue event "seq").bind parseU64

/-- The channel a message, reaction, deletion or voice presence is in. -/
def channelOf (event : Event) : Option String :=
  if !channelKinds.contains event.kind && event.kind != voicePresence then none
  else firstValue event "channel"

section Hex
variable [Nostr]

/-- The group an event belongs to: `d` for the group key's state, `h` for
everything else. -/
def groupOf (event : Event) : Option PublicKey :=
  if stateKinds.contains event.kind then
    (Nostr.identifier event.tags).bind Nostr.fromHex
  else if !isGroupKind event.kind then none
  else (firstValue event "h").bind Nostr.fromHex

end Hex

end HitEnter.Wire
