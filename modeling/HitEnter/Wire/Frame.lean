import HitEnter.Wire.Dm

/-! Length-prefixed frames, and the messages written into them. The length is checked
before a buffer is allocated, on both sides against the same limit. -/

namespace HitEnter.Wire

open Lib.Json

/-- The largest single frame. -/
def maxFrameBytes : Nat := 1024 * 1024

/-- The bytes of length in front of every frame. -/
def headerBytes : Nat := 4

/-- Why there is no frame. `closed` is a stream that ends between two of them, `truncated` one
that ends inside. -/
inductive FrameError where
  | tooLarge (announced : Nat)
  | empty
  | closed
  | truncated (read expected : Nat)
  | transport (why : String)
deriving DecidableEq

/-- A `u32`, its lowest byte first. -/
def leBytes (n : Nat) : List UInt8 := (List.range headerBytes).map fun i => UInt8.ofNat (n / 256 ^ i)

def ofLeBytes (row : List UInt8) : Nat := row.foldr (fun byte n => byte.toNat + 256 * n) 0

/-- A complete frame: the header, then `body`. -/
def encodeFrame (body : List UInt8) : Except FrameError (List UInt8) :=
  if body.isEmpty then .error .empty
  else if maxFrameBytes < body.length then .error (.tooLarge body.length)
  else .ok (leBytes body.length ++ body)

/-- The length a header announces, refused if it is over the limit. -/
def bodyLen (header : List UInt8) : Except FrameError Nat :=
  match ofLeBytes header with
  | 0 => .error .empty
  | n + 1 => if maxFrameBytes < n + 1 then .error (.tooLarge (n + 1)) else .ok (n + 1)

theorem encodeFrame_ok {body : List UInt8} :
    (∃ frame, encodeFrame body = .ok frame) ↔ body ≠ [] ∧ body.length ≤ maxFrameBytes := by
  unfold encodeFrame
  split
  · rename_i empty
    simp [List.isEmpty_iff.mp empty]
  · rename_i full
    split
    · rename_i large
      simp [large]
    · rename_i fits
      exact ⟨fun _ => ⟨by simpa using full, not_lt.mp fits⟩, fun _ => ⟨_, rfl⟩⟩

/-- What a header written by us announces is what follows it. -/
theorem bodyLen_encodeFrame {body frame : List UInt8} (written : encodeFrame body = .ok frame) :
    bodyLen (frame.take headerBytes) = .ok body.length := by
  obtain ⟨full, fits⟩ := encodeFrame_ok.mp ⟨frame, written⟩
  have value : ofLeBytes (leBytes body.length) = body.length := by
    have small : body.length < 2 ^ 32 := lt_of_le_of_lt fits (by decide)
    simp only [ofLeBytes, leBytes, headerBytes, List.range, List.range.loop, List.map_cons, List.map_nil,
      List.foldr_cons, List.foldr_nil, UInt8.toNat_ofNat']
    omega
  have length : (leBytes body.length).length = headerBytes := by simp [leBytes]
  rw [encodeFrame, if_neg (by simpa using full), if_neg (not_lt.mpr fits)] at written
  cases written
  rw [List.take_left' length, bodyLen, value]
  cases count : body.length with
  | zero => exact absurd (List.length_eq_zero_iff.mp count) full
  | succ n =>
    rw [count] at fits
    exact if_neg (not_lt.mpr fits)

/-! ### Messages -/

section Messages
variable [Wraps]

/-- An event on its way to a relay. -/
def clientEvent (ev : Event) : String := array [quote "EVENT", Wraps.json ev]

/-- An event in answer to a subscription. -/
def relayEvent (sub : String) (ev : Event) : String := array [quote "EVENT", quote sub, Wraps.json ev]

def relayEose (sub : String) : String := array [quote "EOSE", quote sub]

def relayClosed (sub message : String) : String := array [quote "CLOSED", quote sub, quote message]

theorem size_clientEvent (ev : Event) : size (clientEvent ev) = 10 + size (Wraps.json ev) := by
  have name : size (quote "EVENT") = 7 := by decide +kernel
  have marks : size "[" = 1 ∧ size "," = 1 ∧ size "]" = 1 := by decide +kernel
  simp only [clientEvent, array, String.intercalate_cons_cons, String.intercalate_singleton, size_append, name]
  omega

theorem size_relayEvent (sub : String) (ev : Event) :
    size (relayEvent sub ev) = 11 + size (quote sub) + size (Wraps.json ev) := by
  have name : size (quote "EVENT") = 7 := by decide +kernel
  simp only [relayEvent, array, String.intercalate_cons_cons, String.intercalate_singleton, size_append, name]
  have marks : size "[" = 1 ∧ size "," = 1 ∧ size "]" = 1 := by decide +kernel
  omega

omit [Wraps] in
theorem size_relayEose (sub : String) : size (relayEose sub) = 9 + size (quote sub) := by
  have name : size (quote "EOSE") = 6 := by decide +kernel
  have marks : size "[" = 1 ∧ size "," = 1 ∧ size "]" = 1 := by decide +kernel
  simp only [relayEose, array, String.intercalate_cons_cons, String.intercalate_singleton, size_append, name]
  omega

end Messages

end HitEnter.Wire
