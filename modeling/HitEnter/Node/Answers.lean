import HitEnter.Group.PermNames
import HitEnter.Node.Accept
import HitEnter.Wire.Frame

/-! What a peer is told: why an event was not taken, why a session ended, and the messages
of a relay with the text each is written as. -/

namespace HitEnter

open Wire

namespace Group

/-- Why an event was refused, for whoever sent it. -/
def Refusal.display : Refusal → String
  | .notAMember => "not a member"
  | .alreadyAMember => "already a member"
  | .kindNotCarried kind => "this node does not carry kind " ++ toString kind.toNat
  | .groupNotCarried => "this node does not carry that group"
  | .noState => "this node has no state for that group yet"
  | .notSignedByGroup => "group state not signed by the group key"
  | .malformed => "malformed group event"
  | .noSuchChannel => "no such channel"
  | .lacks needed => "lacks permission: " ++ needed.display
  | .theOwner => "nobody may act on the owner"
  | .notTheOwner => "only the owner the group key names may sign its creation"
  | .outranked => "does not outrank the target"
  | .cannotGrant => "cannot grant a permission it does not hold"
  | .unknownRole => "unknown role"
  | .noSuchInvite => "no valid invite with that code"
  | .folded => "folded into the group's snapshot"
  | .notApplied => "not valid against the group's state"
  | .fromTheFuture => "dated too far in the future"
  | .stale => "too old to mean anything now"
  | .banned => "banned from this group"
  | .notBanned => "not banned"
  | .muted => "muted"
  | .notMuted => "not muted"
  | .badEdit => "an edit this group cannot take"
  | .tooSoon wait => "slowmode: wait " ++ toString wait.toNat ++ " s between messages here"
  | .newcomer left => "new here: posting opens " ++ toString left.toNat ++ " s after joining"
  | .notOurs => "not a DM for anyone this node keeps them for"
  | .tooLarge => "too large"

end Group

namespace Wire

def BindingError.display : BindingError → String
  | .wrongKind => "not a device binding (wrong kind)"
  | .badSignature => "bad event id or signature"
  | .missingDevice => "no `d` tag naming a device"
  | .notCanonicalDevice => "the `d` tag is not a lowercase-hex EndpointId"
  | .wrongDevice => "the binding names a different device than this connection"
  | .missingProof => "no device proof"
  | .badProof => "the device proof does not verify"
  | .missingExpiry => "no expiration"
  | .expired => "expired"
  | .ttlTooLong => "lifetime longer than 30 days"
  | .fromTheFuture => "created in the future"
  | .revoked => "this device has been revoked"
  | .superseded => "a newer binding for this device replaces this one"

def FrameError.display : FrameError → String
  | .tooLarge announced => "frame of " ++ toString announced ++ " bytes exceeds the " ++ toString maxFrameBytes ++ " byte limit"
  | .empty => "frame body is empty"
  | .closed => "stream closed"
  | .truncated read expected =>
    "stream ended mid-frame after " ++ toString read ++ " of " ++ toString expected ++ " bytes"
  | .transport why => "transport error: " ++ why

end Wire

namespace Node

open Lib.Json

/-- Whether an event was taken, and the message that says so. -/
def Verdict.answer : Verdict → Bool × String
  | .blocked refusal => (false, "blocked: " ++ refusal.display)
  | .invalid error => (false, "invalid: " ++ error.display)
  | .withdrawn => (false, "blocked: withdrawn by its author")
  | .removed => (false, "blocked: removed by a moderator")
  | .stored .duplicate => (true, "duplicate: already have it")
  | .stored .stale => (true, "duplicate: a newer version replaces it")
  | .stored _ => (true, "")

theorem Verdict.answer_fst (verdict : Verdict) : verdict.answer.1 = verdict.accepted := by
  cases verdict with
  | stored how => cases how <;> rfl
  | _ => rfl

/-- An event from outside: its id and signature come before everything else. -/
def Inner.receive [NostrEvents] [Devices] [Wraps] (node : Inner) (ev : Event) (source : Source) (now : Timestamp) :
    Inner × Bool × String :=
  if NostrEvents.verify ev then
    let out := node.acceptEvent ev source now
    (out.1, out.2.answer)
  else (node, false, "invalid: bad id or signature")

/-- A message of a relay, or its binding, which goes before all others. -/
inductive RelayMessage where
  | hello (binding : Event)
  | event (sub : String) (ev : Event)
  | ok (id : EventId) (accepted : Bool) (why : String)
  | eose (sub : String)
  | closed (sub message : String)
  | notice (why : String)
  | negMsg (sub : String) (message : List UInt8)
  | negErr (sub why : String)
  | auth (challenge : String)

/-- The name of the first message of every session. -/
def helloName : String := "HIT-BINDING"

section Text
variable [NostrEvents] [Wraps]

def RelayMessage.text : RelayMessage → String
  | .hello binding => array [quote helloName, Wraps.json binding]
  | .event sub ev => relayEvent sub ev
  | .ok id accepted why =>
    array [quote "OK", quote (NostrEvents.eventIdToHex id), if accepted then "true" else "false", quote why]
  | .eose sub => relayEose sub
  | .closed sub message => relayClosed sub message
  | .notice why => array [quote "NOTICE", quote why]
  | .negMsg sub message => array [quote "NEG-MSG", quote sub, quote (Lib.Hex.encode message)]
  | .negErr sub why => array [quote "NEG-ERR", quote sub, quote why]
  | .auth challenge => array [quote "AUTH", quote challenge]

/-- What goes out of a list of messages: the first that fits no frame is not written, and
none after it. -/
def write : List RelayMessage → List RelayMessage × Option FrameError
  | [] => ([], none)
  | message :: rest =>
    match encodeFrame (Lib.Hex.bytes message.text) with
    | .error e => ([], some e)
    | .ok _ => (message :: (write rest).1, (write rest).2)

theorem write_begins (out : List RelayMessage) : (write out).1 <+: out := by
  induction out with
  | nil => exact List.prefix_refl []
  | cons message rest ih =>
    unfold write
    split
    · exact List.nil_prefix
    · exact List.cons_prefix_cons.mpr ⟨rfl, ih⟩

theorem write_whole {out : List RelayMessage} (fits : (write out).2 = none) : (write out).1 = out := by
  induction out with
  | nil => rfl
  | cons message rest ih =>
    unfold write at fits ⊢
    split at fits
    · cases fits
    · exact congrArg (message :: ·) (ih fits)

end Text

end Node

end HitEnter
