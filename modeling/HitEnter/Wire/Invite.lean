import HitEnter.Wire.Bindings

/-! Invite links: the group, a code where one is needed, and a few devices to start from. -/

namespace HitEnter.Wire

open Lib.Checks Lib.Text

/-- An address and a port. -/
inductive SocketAddr where
  | v4 (ip : BitVec 32) (port : UInt16)
  | v6 (ip : BitVec 128) (port : UInt16) (scope : UInt32)
deriving DecidableEq

/-- Keys in bech32, where a key has that form, and addresses as text. -/
class LinkTexts where
  toBech32 : PublicKey → Option String
  fromBech32 : String → Option PublicKey
  addrText : SocketAddr → String
  parseAddr : String → Option SocketAddr

def scheme : String := "hit-enter:join?"

/-- At most this many devices in a link. -/
def maxPeers : ℕ := 8

structure InviteLink where
  group : PublicKey
  code : Option String
  peers : List (EndpointId × Option SocketAddr)
deriving DecidableEq

inductive InviteError where
  | notALink
  | missing (what : String)
  | malformed (what : String)
deriving DecidableEq

def isHexDigit (c : Char) : Bool := c.isDigit || ('a' ≤ c && c ≤ 'f') || ('A' ≤ c && c ≤ 'F')

/-- What stands before the first `sep`, and after it. -/
def splitOnce (sep : Char) (row : List Char) : Option (List Char × List Char) :=
  match row.dropWhile (· ≠ sep) with
  | [] => none
  | _ :: back => some (row.takeWhile (· ≠ sep), back)

section Text
variable [Nostr] [Devices] [LinkTexts]

def peerText (peer : EndpointId × Option SocketAddr) : String :=
  "&p=" ++ Devices.toText peer.1 ++ (peer.2.elim "" fun addr => "@" ++ LinkTexts.addrText addr)

def InviteLink.text (link : InviteLink) : String :=
  scheme ++ "g=" ++ (LinkTexts.toBech32 link.group).getD (Nostr.toHex link.group) ++
    (link.code.elim "" fun code => "&c=" ++ code) ++ .join ((link.peers.take maxPeers).map peerText)

/-- What has been read of a link. -/
structure InviteParts where
  group : Option PublicKey := none
  code : Option String := none
  peers : List (EndpointId × Option SocketAddr) := []

def parsePeer (value : List Char) : Except InviteError (EndpointId × Option SocketAddr) := do
  let (id, addr) ← match splitOnce '@' value with
    | some (id, addr) => do
      let addr ← orRefuse (LinkTexts.parseAddr (.ofList addr)) (.malformed "peer")
      pure (id, some addr)
    | none => pure (value, none)
  let id ← orRefuse (Devices.parse (.ofList id)) (.malformed "peer")
  pure (id, addr)

def InviteParts.read (parts : InviteParts) (pair : List Char) : Except InviteError InviteParts :=
  match splitOnce '=' pair with
  | none => pure parts
  | some (key, value) => do
    if key = ['g'] then
      let group ← orRefuse ((LinkTexts.fromBech32 (.ofList value)).or (Nostr.fromHex (.ofList value))) (.malformed "group")
      pure { parts with group := some group }
    else if key = ['c'] then
      refuseIf (value.isEmpty || 64 < (Lib.Hex.bytes (.ofList value)).length || !value.all isHexDigit) (.malformed "code")
      pure { parts with code := some (.ofList value) }
    else if key = ['p'] ∧ parts.peers.length < maxPeers then
      let peer ← parsePeer value
      pure { parts with peers := parts.peers ++ [peer] }
    else pure parts

def InviteLink.parse (text : String) : Except InviteError InviteLink := do
  let query ← orRefuse (stripStart scheme (trim text)) .notALink
  let parts ← (query.toList.splitOn '&').foldlM InviteParts.read {}
  let group ← orRefuse parts.group (.missing "group")
  pure { group, code := parts.code, peers := parts.peers }

end Text

/-- No key is in bech32, and no address is text. -/
instance plainLinks : LinkTexts where
  toBech32 _ := none
  fromBech32 _ := none
  addrText _ := ""
  parseAddr _ := none

end HitEnter.Wire
