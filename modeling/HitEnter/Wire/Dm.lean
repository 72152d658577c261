import HitEnter.Lib.Json
import HitEnter.Wire.Bindings

/-! Direct messages: what a gift wrap opens to for the one it is addressed to, the file
of a file message, and the anchors an inbox list names. -/

namespace HitEnter.Wire

open Lib.Decimal Lib.Json

def dm : Kind := 14
def dmFile : Kind := 15
def fileCipher : String := "aes-gcm"
def deviceTag : String := "device"

/-- The unsigned message inside a wrap. -/
structure Rumor where
  id : EventId
  createdAt : Timestamp
  kind : Kind
  tags : List Tag
  content : String

/-- What is taken from the `nostr` crate for wraps: opening one with the keys of the
person it is for, to the seal's signer and the rumor; and an event's own JSON. -/
class Wraps where
  unwrap : PublicKey → Event → Option (PublicKey × Rumor)
  json : Event → String

/-- A file sent in a DM, the key to its ciphertext with it. -/
structure DmFile where
  hash : String
  sha256 : String
  originalSha256 : String
  size : UInt64
  mime : String
  name : String
  key : String
  nonce : String
deriving DecidableEq

/-- A DM, opened; `device` is the sender's own binding, if the rumor carried it. -/
structure Dm where
  id : String
  sender : PublicKey
  recipient : PublicKey
  text : String
  sentAt : Timestamp
  file : Option DmFile
  device : Option Event
deriving DecidableEq

namespace Rumor

/-- The first value of the first tag called `name` that has one. -/
def tag (rumor : Rumor) (name : String) : Option String :=
  rumor.tags.findSome? fun
    | cell :: value :: _ => if cell = name then some value else none
    | _ => none

/-- A file message's file: our address, the one cipher, every field there. -/
def parseFile (rumor : Rumor) : Option DmFile := do
  let cipher ← rumor.tag "encryption-algorithm"
  if cipher ≠ fileCipher then none
  let hash ← stripStart blobUrl rumor.content
  let sha256 ← rumor.tag "x"
  let originalSha256 ← rumor.tag "ox"
  let size ← (rumor.tag "size").bind parseU64
  let mime := (rumor.tag "file-type").getD "application/octet-stream"
  let name := (rumor.tag "name").getD "file"
  let key ← rumor.tag "decryption-key"
  let nonce ← rumor.tag "decryption-nonce"
  if ({ hash, sha256, size := max size 1, mime, name } : Attachment).isValid then
    some { hash, sha256, originalSha256, size, mime, name, key, nonce }
  else none

end Rumor

section Open
variable [NostrEvents] [Wraps]

/-- The device binding a rumor carries: the first `device` tag that reads as an event. -/
def carriedDevice (rumor : Rumor) : Option Event :=
  rumor.tags.findSome? fun
    | cell :: value :: _ => if cell = deviceTag then NostrEvents.fromJson value else none
    | _ => none

/-- A kind 14 has no file, a kind 15 needs one, and nothing else is a DM. -/
def dmFileOf (rumor : Rumor) : Option (Option DmFile) :=
  if rumor.kind = dm then some none
  else if rumor.kind = dmFile then rumor.parseFile.map some
  else none

/-- Opens a wrap addressed to `me`. -/
def openDm (me : PublicKey) (wrap : Event) : Option Dm := do
  if wrap.kind ≠ giftWrap ∨ recipientOf wrap ≠ some me then none
  let (sender, rumor) ← Wraps.unwrap me wrap
  let recipient ← (NostrEvents.publicKeys rumor.tags).head?
  let file ← dmFileOf rumor
  return {
    id := NostrEvents.eventIdToHex rumor.id
    sender, recipient, file
    text := if file.isSome then "" else rumor.content
    sentAt := rumor.createdAt
    device := (carriedDevice rumor).filter (·.pubkey == sender) }

end Open

section Inbox
variable [Nostr] [Devices]

/-- The anchors an inbox list names, with the device to dial. -/
def inboxesOf (list : Event) : List (PublicKey × Option EndpointId) :=
  if list.kind ≠ inboxList then []
  else list.tags.filterMap fun
    | "anchor" :: person :: rest => (Nostr.fromHex person).map fun p => (p, rest.head?.bind Devices.parse)
    | _ => none

/-- The people among them. -/
def inboxNpubs (list : Event) : BTreeSet PublicKey := .ofList ((inboxesOf list).map Prod.fst)

end Inbox

/-- An event's JSON, with zeros for its signature. -/
def plainJson (ev : Event) : String :=
  object [
    ("id", quote (NostrEvents.eventIdToHex ev.id)),
    ("pubkey", quote (Nostr.toHex ev.pubkey)),
    ("created_at", ev.createdAt.secs.toNat.repr),
    ("kind", ev.kind.toNat.repr),
    ("tags", array (ev.tags.map fun tag => array (tag.map quote))),
    ("content", quote ev.content),
    ("sig", quote (.ofList (List.replicate 128 '0')))]

/-- The text of a file's hash. -/
def plainHash : String := .ofList (List.replicate 64 'a')

/-- A file message to the founder. -/
def fileLetter : Rumor where
  id := ⟨15⟩
  createdAt := 500
  kind := dmFile
  tags := [["p", Nostr.toHex founder], ["encryption-algorithm", fileCipher], ["x", plainHash], ["ox", plainHash],
    ["size", "1"], ["decryption-key", "key"], ["decryption-nonce", "nonce"]]
  content := blobUrl ++ plainHash

/-- One content opens, to the caller's file message. -/
instance plainWraps : Wraps where
  unwrap _ wrap := if wrap.content = "sealed" then some (caller, fileLetter) else none
  json := plainJson

end HitEnter.Wire
