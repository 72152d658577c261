import Mathlib

/-! Reading and writing integers in decimal, with the reader's accepted texts
those of a fixed-width parser: an optional sign, at least one ASCII digit and
nothing else, and a value inside the type's range. -/

namespace HitEnter.Lib.Decimal

/-- The value of an ASCII digit. -/
def digitOf (c : Char) : Option Nat :=
  if '0' ≤ c ∧ c ≤ '9' then some (c.toNat - '0'.toNat) else none

/-- The value of a row of digits read after `acc`. -/
def digitsFrom (acc : Nat) : List Char → Option Nat
  | [] => some acc
  | c :: rest => (digitOf c).bind fun d => digitsFrom (acc * 10 + d) rest

/-- A nonempty row of digits. -/
def digits : List Char → Option Nat
  | [] => none
  | row => digitsFrom 0 row

/-- An unsigned reader: a leading `+` is accepted, a value past `limit` is not. -/
def parseUnsigned (limit : Nat) (text : String) : Option Nat :=
  (match text.toList with
    | '+' :: row => digits row
    | row => digits row).filter (· < limit)

/-- A signed reader for the values `low ≤ n < high`. -/
def parseSigned (low high : Int) (text : String) : Option Int :=
  (match text.toList with
    | '+' :: row => (digits row).map Int.ofNat
    | '-' :: row => (digits row).map (fun n : Nat => -(n : Int))
    | row => (digits row).map Int.ofNat).filter (fun n => low ≤ n ∧ n < high)

def parseU64 (text : String) : Option UInt64 := (parseUnsigned (2 ^ 64) text).map UInt64.ofNat

def parseU32 (text : String) : Option UInt32 := (parseUnsigned (2 ^ 32) text).map UInt32.ofNat

def parseI64 (text : String) : Option Int64 :=
  (parseSigned (-2 ^ 63) (2 ^ 63) text).map Int64.ofInt

private theorem digitOf_digitChar (small : n < 10) : digitOf (Nat.digitChar n) = some n := by
  interval_cases n <;> decide

private theorem digitsFrom_append (front : List Char) (acc : Nat) (back : List Char) :
    digitsFrom acc (front ++ back) = (digitsFrom acc front).bind (digitsFrom · back) := by
  induction front generalizing acc with
  | nil => rfl
  | cons c rest ih =>
    simp only [List.cons_append, digitsFrom]
    cases digitOf c with
    | none => rfl
    | some d => exact ih _

private theorem digitsFrom_toDigits (n : Nat) : digitsFrom 0 (Nat.toDigits 10 n) = some n := by
  induction n using Nat.strongRecOn with
  | ind n ih =>
    by_cases small : n < 10
    · rw [Nat.toDigits_of_lt_base small]
      simp [digitsFrom, digitOf_digitChar small]
    · have large : 10 ≤ n := Nat.le_of_not_lt small
      rw [Nat.toDigits_of_base_le (by decide) large, digitsFrom_append, ih (n / 10) (by omega)]
      simp [digitsFrom, digitOf_digitChar (Nat.mod_lt n (by decide : 0 < 10))]
      omega

/-- A row that reads as digits starts with none of the sign characters. -/
private theorem head_ne_sign (read : digitsFrom 0 row = some n) :
    (∀ rest, row ≠ '+' :: rest) ∧ ∀ rest, row ≠ '-' :: rest := by
  constructor <;>
  · rintro rest rfl
    simp [digitsFrom, digitOf] at read

private theorem digits_of_toDigits (n : Nat) : digits (Nat.toDigits 10 n) = some n := by
  have read := digitsFrom_toDigits n
  cases row : Nat.toDigits 10 n with
  | nil => exact absurd row Nat.toDigits_ne_nil
  | cons c rest => simpa [digits, row] using read

theorem parseUnsigned_repr (small : n < limit) : parseUnsigned limit n.repr = some n := by
  have unsigned := (head_ne_sign (digitsFrom_toDigits n)).1
  unfold parseUnsigned
  rw [Nat.toList_repr]
  split
  · rename_i row found
    exact absurd found (unsigned row)
  · simp [digits_of_toDigits, Option.filter, small]

theorem parseSigned_repr {low high n : Int} (least : low ≤ n) (most : n < high) :
    parseSigned low high n.repr = some n := by
  unfold parseSigned
  cases n with
  | ofNat n =>
    have signs := head_ne_sign (digitsFrom_toDigits n)
    simp only [Int.repr]
    rw [Nat.toList_repr]
    split
    · rename_i row found
      exact absurd found (signs.1 row)
    · rename_i row found
      exact absurd found (signs.2 row)
    · simp_all [digits_of_toDigits, Option.filter]
  | negSucc n =>
    have text : (Int.negSucc n).repr.toList = '-' :: Nat.toDigits 10 (n + 1) := by
      simp [Int.repr, String.toList_append, Nat.toList_repr]
    have value : -(((n + 1 : Nat) : Int)) = Int.negSucc n := by omega
    rw [text]
    simp only [digits_of_toDigits]
    rw [Option.map_some, value, Option.filter_some]
    simp [least, most]

@[simp] theorem parseU64_repr (n : UInt64) : parseU64 n.toNat.repr = some n := by
  simp [parseU64, parseUnsigned_repr n.toNat_lt]

@[simp] theorem parseU32_repr (n : UInt32) : parseU32 n.toNat.repr = some n := by
  simp [parseU32, parseUnsigned_repr n.toNat_lt]

@[simp] theorem parseI64_repr (n : Int64) : parseI64 n.toInt.repr = some n := by
  rw [parseI64, parseSigned_repr n.le_toInt n.toInt_lt]
  simp

end HitEnter.Lib.Decimal
