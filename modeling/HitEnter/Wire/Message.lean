import HitEnter.Wire.Group
import HitEnter.Wire.Invoice
import HitEnter.Wire.Plain

/-! What the events posted in a channel carry: the files of a message, the
targets of a reaction or deletion, and the zap receipt in a carrier. -/

namespace HitEnter.Wire

open Lib.Decimal

/-- What else is taken from the `nostr` crate: event ids in hex, the keys of the
`p` tags, an event's expiration, its JSON and its signature. An id's own text reads
back. -/
class NostrEvents extends Nostr where
  eventIdFromHex : String → Option EventId
  eventIdToHex : EventId → String
  publicKeys : List Tag → List PublicKey
  expiration : List Tag → Option Timestamp
  fromJson : String → Option Event
  verify : Event → Bool
  eventIdFromHex_toHex : ∀ id, eventIdFromHex (eventIdToHex id) = some id

attribute [simp] NostrEvents.eventIdFromHex_toHex

def profile : Kind := 0
def giftWrap : Kind := 1059
def inboxList : Kind := 10050
def zapRequest : Kind := 9734
def zapReceipt : Kind := 9735

/-! ### Files -/

/-- A file attached to a message: both its hashes, in lower-case hex. -/
structure Attachment where
  hash : String
  sha256 : String
  size : UInt64
  mime : String
  name : String
deriving DecidableEq

def maxAttachmentBytes : UInt64 := 50 * 1000 * 1000
def maxAttachments : Nat := 10
def maxAttachmentName : Nat := 255
def maxAttachmentMime : Nat := 128
def blobUrl : String := "hit-blob:"

/-- Sixty-four bytes, each a digit or `a` to `f`. -/
def hex64 (text : String) : Bool :=
  (Lib.Hex.bytes text).length == 64 &&
    (Lib.Hex.bytes text).all fun b => (48 ≤ b && b ≤ 57) || (97 ≤ b && b ≤ 102)

/-- Within every limit, with both hashes well-formed; no slash, backslash or zero
in the name. -/
def Attachment.isValid (a : Attachment) : Bool :=
  hex64 a.hash && hex64 a.sha256 && 0 < a.size && a.size ≤ maxAttachmentBytes && !a.name.isEmpty &&
    a.name.toList.length ≤ maxAttachmentName && !(a.name.toList.any fun c => [47, 92, 0].contains c.toNat) &&
    a.mime.toList.length ≤ maxAttachmentMime

/-- The value of the first field `key value` of an `imeta`. -/
def imetaField (fields : List String) (key : String) : Option String :=
  fields.findSome? fun field => (stripStart key field).bind (stripStart " ")

def parseAttachment (fields : List String) : Option Attachment := do
  let hash ← (imetaField fields "url").bind (stripStart blobUrl)
  let sha256 ← imetaField fields "x"
  let size ← (imetaField fields "size").bind parseU64
  let a : Attachment :=
    { hash, sha256, size
      mime := (imetaField fields "m").getD "application/octet-stream"
      name := (imetaField fields "name").getD "file" }
  if a.isValid then some a else none

/-- The files a message carries; `none` if any is malformed or out of bounds, or
there are too many. -/
def attachmentsOf (event : Event) : Option (List Attachment) := do
  let files ← (event.tags.filterMap fun
    | "imeta" :: fields => some fields
    | _ => none).mapM parseAttachment
  if maxAttachments < files.length then none else some files

section Targets
variable [NostrEvents]

/-- The events a reaction or deletion points at: its `e` tags. -/
def targetsOf (event : Event) : List EventId :=
  event.tags.filterMap fun
    | "e" :: value :: _ => NostrEvents.eventIdFromHex value
    | _ => none

/-- Who a wrap is for: its one `p`. -/
def recipientOf (wrap : Event) : Option PublicKey :=
  match NostrEvents.publicKeys wrap.tags with
  | [only] => some only
  | _ => none

/-! ### Zaps -/

/-- A zap, as a validated receipt says it happened. -/
structure Zap where
  receipt : EventId
  request : EventId
  provider : PublicKey
  recipient : PublicKey
  target : EventId
  sender : Option PublicKey
  amountMsat : UInt64
  comment : String
  paidAt : UInt64

inductive ZapError where
  | notAReceipt
  | badSignature
  | badRequest
  | badInvoice
  | wrongAmount
  | mismatch
  | tooLarge
deriving DecidableEq

def maxReceiptBytes : Nat := 16 * 1024
def maxComment : Nat := 280

def keyIn (event : Event) (name : String) : Option PublicKey := (firstValue event name).bind Nostr.fromHex

def idIn (event : Event) (name : String) : Option EventId :=
  (firstValue event name).bind NostrEvents.eventIdFromHex

/-- The receipt's signature, its request's, the invoice's amount against the
request's, and the same recipient and target on both. -/
def checkReceipt (receipt : Event) : Except ZapError Zap := do
  if receipt.kind ≠ zapReceipt then throw .notAReceipt
  if !NostrEvents.verify receipt then throw .badSignature
  let some description := firstValue receipt "description" | throw .badRequest
  let some request := NostrEvents.fromJson description | throw .badRequest
  if request.kind ≠ zapRequest ∨ NostrEvents.verify request = false then throw .badRequest
  let some invoice := (firstValue receipt "bolt11").bind Invoice.decode | throw .badInvoice
  let some asked := (firstValue request "amount").bind parseU64 | throw .badRequest
  if invoice.amountMsat ≠ some asked then throw .wrongAmount
  let some recipient := keyIn request "p" | throw .badRequest
  let some target := idIn request "e" | throw .badRequest
  if keyIn receipt "p" ≠ some recipient ∨ idIn receipt "e" ≠ some target then throw .mismatch
  let anon := request.tags.any fun tag => tag.head? == some "anon"
  return { receipt := receipt.id
           request := request.id
           provider := receipt.pubkey
           recipient := recipient
           target := target
           sender := if anon then none else some request.pubkey
           amountMsat := asked
           comment := .ofList (request.content.toList.take maxComment)
           paidAt := receipt.createdAt.secs }

/-- The zap a carrier holds, if the receipt inside passes and agrees with the
carrier's own `e` and `p`. -/
def carriedZap (event : Event) : Except ZapError Zap := do
  if event.kind ≠ zapCarrier then throw .notAReceipt
  if maxReceiptBytes < (Lib.Hex.bytes event.content).length then throw .tooLarge
  let some receipt := NostrEvents.fromJson event.content | throw .notAReceipt
  let zap ← checkReceipt receipt
  if idIn event "e" ≠ some zap.target ∨ keyIn event "p" ≠ some zap.recipient then throw .mismatch
  return zap

end Targets

/-- Ids in hex as keys are; no event is in JSON and no signature fails. -/
instance plainEvents : NostrEvents where
  toNostr := plain
  eventIdFromHex text := (plainFromHex text).map fun key => ⟨key.bytes⟩
  eventIdToHex id := plainToHex ⟨id.bytes⟩
  publicKeys tags := tags.filterMap fun
    | "p" :: value :: _ => plainFromHex value
    | _ => none
  expiration tags := (tags.findSome? fun
    | "expiration" :: value :: _ => parseU64 value
    | _ => none).map Timestamp.mk
  fromJson _ := none
  verify _ := true
  eventIdFromHex_toHex id := by simp [plainFromHex_plainToHex]

end HitEnter.Wire
