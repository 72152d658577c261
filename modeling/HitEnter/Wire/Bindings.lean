import HitEnter.Wire.Message
import HitEnter.Wire.Replace
import HitEnter.Lib.Checks

/-! Device bindings: a person's word that a device speaks for them, and the book of
the newest word on each device. Nothing here answers from a signature alone: who is
at the other end of a connection is asked with the connection's own device. -/

namespace HitEnter.Wire

open Lib.Checks

/-- A device's ed25519 public key, by which connections to it are known. -/
structure EndpointId where
  bytes : BitVec 256
deriving DecidableEq

/-- What is taken from iroh: a device's text, its own keys, and what they sign. Text
is read in more than one spelling, `toText` among them. -/
class Devices where
  Key : Type
  endpoint : Key → EndpointId
  parse : String → Option EndpointId
  toText : EndpointId → String
  prove : Key → List UInt8 → List UInt8
  verifies : EndpointId → List UInt8 → List UInt8 → Bool
  parse_toText : ∀ device, parse (toText device) = some device
  length_prove : ∀ key message, (prove key message).length = 64
  verifies_prove : ∀ key message, verifies (endpoint key) message (prove key message) = true

/-- Why a binding was refused. -/
inductive BindingError where
  | wrongKind
  | badSignature
  | missingDevice
  | notCanonicalDevice
  | wrongDevice
  | missingProof
  | badProof
  | missingExpiry
  | expired
  | ttlTooLong
  | fromTheFuture
  | revoked
  | superseded
deriving DecidableEq

/-- Thirty days, in seconds. -/
def maxTtl : Nat := 30 * 24 * 60 * 60

/-- Ten minutes, in seconds. -/
def bindingClockSkew : UInt64 := 10 * 60

def proofDomain : String := "hit-enter/device-binding/1:"

/-- A key's thirty-two bytes, the highest first. -/
def PublicKey.toBytes (key : PublicKey) : List UInt8 :=
  (List.range 32).map fun i => UInt8.ofNat (key.toNat / 256 ^ (31 - i))

/-- What a device signs to agree to speak for `person`. -/
def proofMessage (person : PublicKey) : List UInt8 := Lib.Hex.bytes proofDomain ++ person.toBytes

section Book
variable [NostrEvents] [Devices]

/-- A binding of `device` to `person`, valid from `now` for `ttl`. -/
def signBinding (person : PublicKey) (device : Devices.Key) (now : Timestamp) (ttl : UInt64) : Event :=
  signed person now deviceBinding
    [["d", Devices.toText (Devices.endpoint device)], ["expiration", (Nostr.add now ttl).secs.toNat.repr],
     ["proof", Lib.Hex.encode (Devices.prove device (proofMessage person))], ["alt", "HIT_ENTER device binding"]] ""

/-- A revocation needs only the device's id: the device itself may be lost. -/
def signRevocation (person : PublicKey) (device : EndpointId) (now : Timestamp) : Event :=
  signed person now deviceBinding
    [["d", Devices.toText device], ["revoked"], ["alt", "HIT_ENTER device binding"]] ""

/-- Past its date, or without one. -/
def expired (event : Event) (now : Timestamp) : Bool := (NostrEvents.expiration event.tags).all (· ≤ now)

/-- The value of the first `proof` tag. -/
def proofText (event : Event) : Option String :=
  (event.tags.find? fun tag => tag.head? == some "proof").bind (·[1]?)

def proofBytes (text : String) : Option (List UInt8) :=
  (Lib.Hex.decode text).filter fun row => row.length == 64

/-- A binding or revocation whose signatures, device and lifetime check out. -/
structure Parsed where
  deviceHex : String
  revoked : Bool

/-- The device is compared as canonical text: two spellings of one device would be
two slots, and a revocation in one would leave a binding alive in the other. -/
def Parsed.check (event : Event) (now : Timestamp) : Except BindingError Parsed := do
  refuseIf (event.kind != deviceBinding) .wrongKind
  refuseIf (!NostrEvents.verify event) .badSignature
  refuseIf (Nostr.add now bindingClockSkew < event.createdAt) .fromTheFuture
  let deviceHex ← orRefuse (Nostr.identifier event.tags) .missingDevice
  let device ← orRefuse (Devices.parse deviceHex) .notCanonicalDevice
  refuseIf (Devices.toText device != deviceHex) .notCanonicalDevice
  if isRevoked event then return { deviceHex, revoked := true }
  let exp ← orRefuse (NostrEvents.expiration event.tags) .missingExpiry
  refuseIf (exp ≤ now) .expired
  refuseIf (maxTtl < exp.toNat - event.createdAt.toNat) .ttlTooLong
  let proofHex ← orRefuse (proofText event) .missingProof
  let proof ← orRefuse (proofBytes proofHex) .badProof
  refuseIf (!Devices.verifies device (proofMessage event.pubkey) proof) .badProof
  return { deviceHex, revoked := false }

/-- Does the device agree to the binding? -/
def proven (event : Event) (device : EndpointId) : Bool :=
  ((proofText event).bind proofBytes).any (Devices.verifies device (proofMessage event.pubkey))

/-- What is signed for a device carries the device's agreement. -/
theorem proven_signBinding (person : PublicKey) (device : Devices.Key) (now : Timestamp) (ttl : UInt64) :
    proven (signBinding person device now ttl) (Devices.endpoint device) = true := by
  simp [proven, proofText, proofBytes, signBinding, signed, Lib.Hex.decode_encode, Devices.length_prove,
    Devices.verifies_prove]

/-- The person `event` binds the connection `conn` to. Alone, this cannot see
revocations. -/
def verifyBindingAt (event : Event) (conn : EndpointId) (now : Timestamp) : Except BindingError PublicKey := do
  let parsed ← Parsed.check event now
  refuseIf (parsed.deviceHex != Devices.toText conn) .wrongDevice
  refuseIf parsed.revoked .revoked
  return event.pubkey

/-- What a check that passes has seen of the event and the text of its device. -/
structure Checked (event : Event) (now : Timestamp) (deviceHex : String) : Prop where
  kind : event.kind = deviceBinding
  signed : NostrEvents.verify event = true
  named : Nostr.identifier event.tags = some deviceHex
  canonical : ∃ device, Devices.parse deviceHex = some device ∧ Devices.toText device = deviceHex
  alive : isRevoked event = false → expired event now = false
  proven : isRevoked event = false → ∀ device, Devices.parse deviceHex = some device → proven event device = true

theorem Parsed.check_ok {event : Event} {now : Timestamp} {parsed : Parsed}
    (ok : Parsed.check event now = .ok parsed) :
    Checked event now parsed.deviceHex ∧ parsed.revoked = isRevoked event := by
  simp only [Parsed.check, bind_eq_ok, refuseIf_eq_ok, orRefuse_eq_ok, bne_eq_false_iff_eq,
    Bool.not_eq_eq_eq_not, Bool.not_false] at ok
  obtain ⟨_, kind, _, signed, _, _, deviceHex, named, device, parses, _, canonical, ok⟩ := ok
  split at ok
  · rename_i revoked
    obtain rfl := pure_eq_ok.mp ok
    exact ⟨⟨kind, signed, named, ⟨device, parses, canonical⟩, by simp [revoked], by simp [revoked]⟩, revoked.symm⟩
  · rename_i bound
    simp only [bind_eq_ok, refuseIf_eq_ok, orRefuse_eq_ok, Bool.not_eq_eq_eq_not, Bool.not_false] at ok
    obtain ⟨exp, dated, _, alive, _, _, proofHex, given, proof, reads, _, holds, ok⟩ := ok
    obtain rfl := pure_eq_ok.mp ok
    refine ⟨⟨kind, signed, named, ⟨device, parses, canonical⟩, fun _ => ?_, fun _ other same => ?_⟩, by simpa using bound⟩
    · simpa [expired, dated] using alive
    · obtain rfl := Option.some.inj (parses.symm.trans same)
      simp [proven, given, reads, holds]

end Book

end HitEnter.Wire
