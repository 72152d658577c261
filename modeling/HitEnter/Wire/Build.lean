import HitEnter.Wire.Group

/-! The events people sign: each builder gives a kind and its tags, and signing
adds the author and the date. -/

namespace HitEnter.Wire

/-- An event before it is signed. -/
structure Draft where
  kind : Kind
  tags : List Tag

def Edit.toTag : Edit → Tag
  | .name n => ["name", n]
  | .isPublic true => ["public"]
  | .isPublic false => ["private"]
  | .newcomerWait secs => ["newcomer_wait", secs.toNat.repr]
  | .about text => ["about", text]
  | .channel c => channelTag c
  | .channelDelete id => ["channel-delete", id]
  | .override o => overrideTag o
  | .role r => roleTag r
  | .roleDelete id => ["role-delete", id]

namespace Draft

variable [Nostr]

def sign (draft : Draft) (person : PublicKey) (date : Timestamp) : Event :=
  signed person date draft.kind draft.tags ""

def h (group : PublicKey) : Tag := ["h", Nostr.toHex group]

/-- The owner's `9007`. -/
def createGroup (group : PublicKey) : Draft := ⟨Wire.createGroup, [h group]⟩

def putUser (group target : PublicKey) (roles : List String) : Draft :=
  ⟨Wire.putUser, [h group, "p" :: Nostr.toHex target :: roles]⟩

def removeUser (group target : PublicKey) : Draft := ⟨Wire.removeUser, [h group, ["p", Nostr.toHex target]]⟩

/-- Remove `target` and keep them out. -/
def banUser (group target : PublicKey) : Draft :=
  ⟨Wire.removeUser, (removeUser group target).tags ++ [["ban"]]⟩

/-- Lift `target`'s ban. -/
def unbanUser (group target : PublicKey) : Draft :=
  ⟨Wire.removeUser, (removeUser group target).tags ++ [["unban"]]⟩

/-- Mute `target` until `until_`; without one, lift a mute. -/
def muteUser (group target : PublicKey) (until_ : Option Timestamp) : Draft :=
  ⟨Wire.muteUser, [h group, ["p", Nostr.toHex target, (until_.elim 0 (·.secs.toNat)).repr]]⟩

/-- Change the group: every edit of the batch, or none. -/
def editMetadata (group : PublicKey) (edits : List Edit) : Draft :=
  ⟨Wire.editMetadata, h group :: edits.map Edit.toTag⟩

def createInvite (group : PublicKey) (code : String) (expires : Option Timestamp) : Draft :=
  ⟨Wire.createInvite, h group :: ["code", code] ::
    (expires.map fun date => ["expiration", date.secs.toNat.repr]).toList⟩

def join (group : PublicKey) (code : String) : Draft := ⟨Wire.join, [h group, ["code", code]]⟩

/-- A join without an invite: to a public group. -/
def joinPublic (group : PublicKey) : Draft := ⟨Wire.join, [h group]⟩

def leave (group : PublicKey) : Draft := ⟨Wire.leave, [h group]⟩

end Draft

end HitEnter.Wire
