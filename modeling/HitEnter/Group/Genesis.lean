import HitEnter.Group.Perm
import HitEnter.Wire.Build

/-! How a group begins. -/

namespace HitEnter.Group

open Wire

namespace Permissions

def manageInvites : Permissions := ⟨(1 : UInt64) <<< 5⟩

/-- What a new member gets: read, write, attach, and bring a friend. -/
def defaultMember : Permissions :=
  ⟨viewChannel.bits ||| sendMessages.bits ||| Permissions.createInvite.bits ||| attachFiles.bits⟩

def defaultModerator : Permissions :=
  ⟨defaultMember.bits ||| manageMessages.bits ||| kickMembers.bits ||| banMembers.bits |||
    muteMembers.bits⟩

def defaultAdmin : Permissions :=
  ⟨defaultModerator.bits ||| manageChannels.bits ||| manageInvites.bits ||| manageRoles.bits⟩

end Permissions

def defaultRoles : List RoleDef :=
  [{ id := defaultRole, name := "Member", perms := Permissions.defaultMember.bits, position := 0 },
   { id := "mod", name := "Moderator", perms := Permissions.defaultModerator.bits, position := 10 },
   { id := "admin", name := "Admin", perms := Permissions.defaultAdmin.bits, position := 20 }]

/-- The first snapshot: one `general` channel, the role ladder, the owner as its
only member. -/
def firstSnapshot (owner : PublicKey) (name : String) (isPublic : Bool) : Snapshot where
  seq := 0
  name := name
  isPublic := isPublic
  newcomerWait := 0
  about := ""
  channels := [{ id := "general", name := "general", kind := .text, slowmode := 0 }]
  overrides := []
  roles := defaultRoles
  owner := some owner
  members := .ofList [(owner, ∅)]
  bans := ∅
  mutes := ∅

/-- A new group's first events: the group key's snapshot at `seq` 0 and the
owner's own `9007`. -/
def genesis [Nostr] (owner group : PublicKey) (name : String) (isPublic : Bool) (now : Timestamp) :
    List Event :=
  (firstSnapshot owner name isPublic).sign group now ++ [(Draft.createGroup group).sign owner now]

end HitEnter.Group
