import HitEnter.Wire.Message

/-! What a profile says besides names: that it is an anchor's, and whose key signs receipts. -/

namespace HitEnter.Wire

/-- A profile's JSON, where it is one: the text and the truth values under names of its own. -/
class Profiles extends NostrEvents where
  customText : String → String → Option String
  customFlag : String → String → Option Bool

def zapPubkeyField : String := "zap_pubkey"

variable [Profiles]

/-- Does this profile say it is an anchor? -/
def isAnchor (ev : Event) : Bool := ev.kind == profile && (Profiles.customFlag ev.content "bot").getD false

/-- The key a person's profile says their provider signs receipts with. -/
def zapPubkeyOf (ev : Event) : Option PublicKey :=
  if ev.kind ≠ profile then none else (Profiles.customText ev.content zapPubkeyField).bind Nostr.fromHex

end HitEnter.Wire
