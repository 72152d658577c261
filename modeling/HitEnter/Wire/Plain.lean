import HitEnter.Wire.Basic
import HitEnter.Lib.Hex

/-! A concrete reading of what is taken from the `nostr` crate, so that the fold
and the judgements can be run on given events. -/

namespace HitEnter.Wire

/-- Thirty-two bytes as hexadecimal text. -/
def plainToHex (key : PublicKey) : String := String.ofList (Lib.Hex.write 64 key.toNat)

def plainFromHex (text : String) : Option PublicKey :=
  let bytes := Lib.Hex.bytes text
  if bytes.length = 64 then (Lib.Hex.read 0 bytes).map fun n => ⟨BitVec.ofNat 256 n⟩ else none

/-- Stands for the hash: one number for each person, second and kind signed. -/
def fingerprint (key : PublicKey) (date : Timestamp) (kind : Kind) : Nat :=
  (key.toNat * 2 ^ 64 + date.toNat) * 2 ^ 16 + kind.toNat

/-- A date plus seconds stops at the last one. -/
def plainAdd (date : Timestamp) (secs : UInt64) : Timestamp :=
  if date.secs.toNat + secs.toNat < 2 ^ 64 then ⟨date.secs + secs⟩ else ⟨UInt64.ofNat (2 ^ 64 - 1)⟩

theorem plainFromHex_plainToHex (key : PublicKey) : plainFromHex (plainToHex key) = some key := by
  obtain ⟨bytes⟩ := key
  have small : bytes.toNat < 16 ^ 64 := bytes.isLt
  have value : Lib.Hex.read 0 (Lib.Hex.bytes (String.ofList (Lib.Hex.write 64 bytes.toNat))) =
      some bytes.toNat := by
    rw [Lib.Hex.read_bytes_write, Nat.mod_eq_of_lt small, Nat.zero_mul, Nat.zero_add]
  simp [plainFromHex, plainToHex, PublicKey.toNat, value]

instance plain : Nostr where
  fromHex := plainFromHex
  toHex := plainToHex
  identifier tags := (tags.find? fun tag => tag.head? == some "d").bind (·[1]?)
  eventId key date kind _ _ := ⟨BitVec.ofNat 256 (fingerprint key date kind)⟩
  add := plainAdd
  fromHex_toHex := plainFromHex_plainToHex
  identifier_cons _ _ := rfl

/-! The people of the groups that are run as examples. -/

def club : PublicKey := ⟨1⟩
def founder : PublicKey := ⟨2⟩
def steward : PublicKey := ⟨3⟩
def guest : PublicKey := ⟨4⟩
def caller : PublicKey := ⟨5⟩

end HitEnter.Wire
