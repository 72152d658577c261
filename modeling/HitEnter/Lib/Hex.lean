import Mathlib

/-! Fixed-width numbers in hexadecimal: written in lower case, read from bytes in
either. -/

namespace HitEnter.Lib.Hex

/-- The value of a hexadecimal digit: `0`..`9`, `a`..`f` or `A`..`F`. -/
def digitOf (byte : UInt8) : Option Nat :=
  if 48 ≤ byte ∧ byte ≤ 57 then some (byte.toNat - 48)
  else if 97 ≤ byte ∧ byte ≤ 102 then some (byte.toNat - 87)
  else if 65 ≤ byte ∧ byte ≤ 70 then some (byte.toNat - 55)
  else none

/-- The value of a row of digits read after `acc`. -/
def read (acc : Nat) : List UInt8 → Option Nat
  | [] => some acc
  | byte :: rest => (digitOf byte).bind fun d => read (acc * 16 + d) rest

/-- The last `width` digits of `n`. -/
def write : Nat → Nat → List Char
  | 0, _ => []
  | width + 1, n => write width (n / 16) ++ [Nat.digitChar (n % 16)]

/-- The bytes of a text. -/
def bytes (text : String) : List UInt8 := text.toByteArray.data.toList

theorem bytes_ofList (row : List Char) :
    bytes (String.ofList row) = row.flatMap String.utf8EncodeChar := by
  simp [bytes, List.utf8Encode]

private theorem read_digit (small : n < 16) (acc : Nat) :
    read acc (String.utf8EncodeChar (Nat.digitChar n)) = some (acc * 16 + n) := by
  interval_cases n <;> rfl

private theorem read_append (front back : List UInt8) (acc : Nat) :
    read acc (front ++ back) = (read acc front).bind (read · back) := by
  induction front generalizing acc with
  | nil => rfl
  | cons byte rest ih =>
    simp only [List.cons_append, read]
    cases digitOf byte with
    | none => rfl
    | some d => exact ih _

private theorem length_digit (small : n < 16) : (String.utf8EncodeChar (Nat.digitChar n)).length = 1 := by
  interval_cases n <;> rfl

@[simp] theorem length_bytes_write (width n : Nat) : (bytes (String.ofList (write width n))).length = width := by
  rw [bytes_ofList]
  induction width generalizing n with
  | zero => rfl
  | succ width ih =>
    have last : n % 16 < 16 := Nat.mod_lt n (by decide)
    simp [write, List.flatMap_append, ih, length_digit last, -List.length_flatMap]

theorem read_bytes_write (width n acc : Nat) :
    read acc (bytes (String.ofList (write width n))) = some (acc * 16 ^ width + n % 16 ^ width) := by
  rw [bytes_ofList]
  induction width generalizing n with
  | zero => simp [write, read, Nat.mod_one]
  | succ width ih =>
    have last : n % 16 < 16 := Nat.mod_lt n (by decide)
    simp only [write, List.flatMap_append, List.flatMap_cons, List.flatMap_nil, List.append_nil,
      read_append, ih, Option.bind_some, read_digit last, Option.some.injEq]
    rw [Nat.pow_succ, Nat.mul_comm (16 ^ width) 16, Nat.mod_mul]
    ring

/-- Two digits for each byte, in lower case. -/
def encode (row : List UInt8) : String := String.ofList (row.flatMap fun byte => write 2 byte.toNat)

/-- The bytes that pairs of digits stand for. -/
def decodeBytes : List UInt8 → Option (List UInt8)
  | [] => some []
  | [_] => none
  | high :: low :: rest => do
    let first ← digitOf high
    let second ← digitOf low
    let row ← decodeBytes rest
    return UInt8.ofNat (first * 16 + second) :: row

def decode (text : String) : Option (List UInt8) := decodeBytes (bytes text)

private theorem decode_byte (byte : UInt8) (rest : List UInt8) :
    decodeBytes ((write 2 byte.toNat).flatMap String.utf8EncodeChar ++ rest) = (decodeBytes rest).map (byte :: ·) := by
  have small : ∀ n, n % 16 < 16 := fun n => Nat.mod_lt n (by decide)
  have one : ∀ n < 16, ∃ code, String.utf8EncodeChar (Nat.digitChar n) = [code] ∧ digitOf code = some n := by
    intro n low
    interval_cases n
    all_goals exact ⟨_, rfl, rfl⟩
  obtain ⟨high, first, reads⟩ := one (byte.toNat / 16 % 16) (small _)
  obtain ⟨low, second, reads'⟩ := one (byte.toNat % 16) (small _)
  have value : UInt8.ofNat (byte.toNat / 16 % 16 * 16 + byte.toNat % 16) = byte := by
    have bound := byte.toNat_lt
    rw [show byte.toNat / 16 % 16 * 16 + byte.toNat % 16 = byte.toNat by omega]
    exact UInt8.ofNat_toNat
  simp only [write, List.nil_append, List.flatMap_cons, List.flatMap_nil, List.append_nil,
    first, second, List.cons_append, decodeBytes, reads, reads', Option.bind_eq_bind, Option.bind_some, value]
  cases decodeBytes rest <;> rfl

theorem decode_encode (row : List UInt8) : decode (encode row) = some row := by
  rw [decode, encode, bytes_ofList]
  induction row with
  | nil => rfl
  | cons byte rest ih => rw [List.flatMap_cons, List.flatMap_append, decode_byte, ih, Option.map_some]

end HitEnter.Lib.Hex
