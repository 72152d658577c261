import HitEnter.Lib.Bits
import HitEnter.Wire.Bech32

/-! Bytes in five-bit words and back, and the text of an LNURL. -/

namespace HitEnter.Wire

open Lib.Bits Lib.Hex Lib.Ascii Lib.Text

/-- The bits taken in and not yet given out, how many they are, and what was given out. -/
structure Regrouping where
  acc : ℕ := 0
  count : ℕ := 0
  out : List UInt8 := []

def bytesStep (s : Regrouping) (w : UInt8) : Regrouping :=
  let acc := s.acc <<< 5 ||| w.toNat
  let count := s.count + 5
  if 8 ≤ count then
    { acc := acc &&& (1 <<< (count - 8) - 1), count := count - 8, out := s.out ++ [.ofNat (acc >>> (count - 8))] }
  else { s with acc, count }

/-- The bytes in a row of words; what is left over at the end is dropped. -/
def toBytes (words : List UInt8) : List UInt8 := (words.foldl bytesStep {}).out

/-- The words that can be taken from the top of so many bits, and how many are left. -/
def drain (acc : ℕ) : ℕ → ℕ × List UInt8
  | count + 5 =>
    let rest := drain acc count
    (rest.1, .ofNat (acc >>> count &&& 31) :: rest.2)
  | count => (count, [])

def wordsStep (s : Regrouping) (b : UInt8) : Regrouping :=
  let acc := s.acc <<< 8 ||| b.toNat
  let drained := drain acc (s.count + 8)
  { acc := acc &&& (1 <<< drained.1 - 1), count := drained.1, out := s.out ++ drained.2 }

/-- A row of bytes in words, the last filled up with zeros. -/
def toWords (bytes : List UInt8) : List UInt8 :=
  let s := bytes.foldl wordsStep {}
  if 0 < s.count then s.out ++ [.ofNat (s.acc <<< (5 - s.count) &&& 31)] else s.out

/-! ### Bits -/

/-- The bits of a row of numbers below `2 ^ width`. -/
abbrev rowBits (width : ℕ) (row : List UInt8) : List Bool := row.flatMap fun b => bits width b.toNat

/-- What was given out, and what is left, are the bits that were taken in. -/
structure Holds (s : Regrouping) (width : ℕ) (taken : List Bool) : Prop where
  small : s.acc < 2 ^ s.count
  few : s.count < width
  same : rowBits width s.out ++ bits s.count s.acc = taken

theorem mask_eq (n width : ℕ) : n &&& (1 <<< width - 1) = n % 2 ^ width := by
  rw [Nat.shiftLeft_eq, Nat.one_mul, Nat.and_two_pow_sub_one_eq_mod]

theorem or_lt {front back high low : ℕ} (smallFront : front < 2 ^ high) (smallBack : back < 2 ^ low) :
    front <<< low ||| back < 2 ^ (high + low) := by
  refine Nat.or_lt_two_pow ?_ (smallBack.trans_le (Nat.pow_le_pow_right Nat.two_pos (Nat.le_add_left low high)))
  rw [Nat.shiftLeft_eq, Nat.pow_add]
  exact (Nat.mul_lt_mul_right (Nat.two_pow_pos low)).mpr smallFront

/-- A byte given out, and what is left below it. -/
theorem give_byte {acc count : ℕ} (small : acc < 2 ^ (8 + count)) :
    bits 8 (UInt8.ofNat (acc >>> count)).toNat ++ bits count (acc % 2 ^ count) = bits (8 + count) acc := by
  have byte : acc >>> count < 2 ^ 8 := by
    rw [Nat.shiftRight_eq_div_pow]
    exact Nat.div_lt_of_lt_mul (by rwa [← Nat.pow_add, Nat.add_comm])
  rw [bits_split, bits_mod, UInt8.toNat_ofNat', Nat.mod_eq_of_lt byte]

theorem bytesStep_holds {s : Regrouping} {taken : List Bool} {w : UInt8} (holds : Holds s 8 taken) (word : w < 32) :
    Holds (bytesStep s w) 8 (taken ++ bits 5 w.toNat) := by
  have small : w.toNat < 2 ^ 5 := UInt8.lt_iff_toNat_lt.mp word
  have fits : s.acc <<< 5 ||| w.toNat < 2 ^ (s.count + 5) := or_lt holds.small small
  have joined : rowBits 8 s.out ++ bits (s.count + 5) (s.acc <<< 5 ||| w.toNat) = taken ++ bits 5 w.toNat := by
    rw [bits_or _ _ small, ← List.append_assoc, holds.same]
  by_cases enough : 8 ≤ s.count + 5
  · have given : bytesStep s w = _ := if_pos enough
    have all : s.count + 5 = 8 + (s.count + 5 - 8) := by omega
    rw [given]
    have few : s.count + 5 - 8 < 8 := by
      have := holds.few
      omega
    refine ⟨?_, few, ?_⟩
    · rw [mask_eq]
      exact Nat.mod_lt _ (Nat.two_pow_pos _)
    · rw [all] at joined fits
      rw [mask_eq, rowBits, List.flatMap_append, List.flatMap_singleton, List.append_assoc, give_byte fits]
      exact joined
  · have kept : bytesStep s w = _ := if_neg enough
    rw [kept]
    exact ⟨fits, Nat.lt_of_not_le enough, joined⟩

theorem word_toNat (n : ℕ) : (UInt8.ofNat (n &&& 31)).toNat = n % 2 ^ 5 := by
  have low : n &&& 31 = n % 2 ^ 5 := Nat.and_two_pow_sub_one_eq_mod n 5
  rw [low, UInt8.toNat_ofNat', Nat.mod_eq_of_lt ((Nat.mod_lt n (by decide)).trans (by decide : 2 ^ 5 < 2 ^ 8))]

theorem drain_few {acc count : ℕ} (few : count < 5) : drain acc count = (count, []) := by
  interval_cases count <;> rfl

/-- What is drained and what is left are the bits there were. -/
theorem drain_spec (acc count : ℕ) : (drain acc count).1 < 5 ∧ (∀ w ∈ (drain acc count).2, w < 32) ∧
    rowBits 5 (drain acc count).2 ++ bits (drain acc count).1 acc = bits count acc := by
  induction count using Nat.strongRecOn with
  | ind count ih =>
    by_cases few : count < 5
    · rw [drain_few few]
      exact ⟨few, fun w none_ => absurd none_ List.not_mem_nil, List.nil_append _⟩
    · obtain ⟨rest, rfl⟩ : ∃ rest, count = rest + 5 := ⟨count - 5, by omega⟩
      obtain ⟨left, words, same⟩ := ih rest (by omega)
      have word : (UInt8.ofNat (acc >>> rest &&& 31)).toNat = acc >>> rest % 2 ^ 5 := word_toNat _
      refine ⟨left, ?_, ?_⟩
      · intro w member
        rcases List.mem_cons.mp member with rfl | later
        · exact UInt8.lt_iff_toNat_lt.mpr (word ▸ Nat.mod_lt _ (by decide))
        · exact words w later
      · change (bits 5 _ ++ rowBits 5 (drain acc rest).2) ++ bits (drain acc rest).1 acc = _
        rw [List.append_assoc, same, word, bits_mod, Nat.add_comm rest 5, bits_split]

theorem wordsStep_holds {s : Regrouping} {taken : List Bool} (holds : Holds s 5 taken) (words : ∀ w ∈ s.out, w < 32)
    (b : UInt8) : Holds (wordsStep s b) 5 (taken ++ bits 8 b.toNat) ∧ ∀ w ∈ (wordsStep s b).out, w < 32 := by
  have small : b.toNat < 2 ^ 8 := b.toNat_lt
  obtain ⟨few, drained, same⟩ := drain_spec (s.acc <<< 8 ||| b.toNat) (s.count + 8)
  constructor
  · refine ⟨?_, few, ?_⟩
    · change _ &&& _ < _
      rw [mask_eq]
      exact Nat.mod_lt _ (Nat.two_pow_pos _)
    · change rowBits 5 (s.out ++ _) ++ bits (drain _ _).1 (_ &&& _) = _
      rw [mask_eq, bits_mod, rowBits, List.flatMap_append, List.append_assoc, same, bits_or _ _ small,
        ← List.append_assoc, holds.same]
  · intro w member
    rcases List.mem_append.mp member with before | now
    · exact words w before
    · exact drained w now

/-! ### There and back -/

theorem toBytes_holds {words : List UInt8} (small : ∀ w ∈ words, w < 32) :
    ∃ ends : List Bool, ends.length < 8 ∧ rowBits 8 (toBytes words) ++ ends = rowBits 5 words := by
  have general (row : List UInt8) (fits : ∀ w ∈ row, w < 32) (s : Regrouping) (taken : List Bool) (holds : Holds s 8 taken) :
      Holds (row.foldl bytesStep s) 8 (taken ++ rowBits 5 row) := by
    induction row generalizing s taken with
    | nil => rwa [rowBits, List.flatMap_nil, List.append_nil]
    | cons w rest ih =>
      rw [rowBits, List.flatMap_cons, ← List.append_assoc]
      exact ih (fun v member => fits v (List.mem_cons_of_mem w member)) _ _
        (bytesStep_holds holds (fits w List.mem_cons_self))
  have all := general words small {} [] ⟨by decide, by decide, rfl⟩
  exact ⟨_, (length_bits _ _).trans_lt all.few, all.same⟩

/-- The words of some bytes hold their bits, and then less than a word of zeros. -/
theorem toWords_holds (bytes : List UInt8) : (∀ w ∈ toWords bytes, w < 32) ∧
    ∃ ends : List Bool, ends.length < 5 ∧ rowBits 5 (toWords bytes) = rowBits 8 bytes ++ ends := by
  have general (row : List UInt8) (s : Regrouping) (taken : List Bool) (holds : Holds s 5 taken)
      (words : ∀ w ∈ s.out, w < 32) :
      Holds (row.foldl wordsStep s) 5 (taken ++ rowBits 8 row) ∧ ∀ w ∈ (row.foldl wordsStep s).out, w < 32 := by
    induction row generalizing s taken with
    | nil =>
      rw [rowBits, List.flatMap_nil, List.append_nil]
      exact ⟨holds, words⟩
    | cons b rest ih =>
      rw [rowBits, List.flatMap_cons, ← List.append_assoc]
      obtain ⟨next, nextWords⟩ := wordsStep_holds holds words b
      exact ih _ _ next nextWords
  obtain ⟨all, words⟩ := general bytes {} [] ⟨by decide, by decide, rfl⟩ fun w none_ => absurd none_ List.not_mem_nil
  let s := bytes.foldl wordsStep {}
  by_cases left : 0 < s.count
  · have filled : toWords bytes = s.out ++ [.ofNat (s.acc <<< (5 - s.count) &&& 31)] := if_pos left
    have last : bits 5 (s.acc <<< (5 - s.count)) = bits s.count s.acc ++ bits (5 - s.count) 0 := by
      have width : s.count + (5 - s.count) = 5 := Nat.add_sub_cancel' all.few.le
      rw [← bits_or s.count s.acc (Nat.two_pow_pos (5 - s.count)), Nat.or_zero, width]
    rw [filled]
    refine ⟨?_, bits (5 - s.count) 0, by rw [length_bits]; omega, ?_⟩
    · intro w member
      rcases List.mem_append.mp member with before | now
      · exact words w before
      · rw [List.mem_singleton.mp now, UInt8.lt_iff_toNat_lt, word_toNat]
        exact Nat.mod_lt _ (by decide)
    · rw [rowBits, List.flatMap_append, List.flatMap_singleton, word_toNat, bits_mod, last, ← List.append_assoc]
      exact congrArg (· ++ _) all.same
  · have whole : toWords bytes = s.out := if_neg left
    have none_ : s.count = 0 := Nat.eq_zero_of_not_pos left
    have same := all.same
    rw [show (bytes.foldl wordsStep {}).count = 0 from none_, Lib.Bits.bits, List.append_nil] at same
    rw [whole]
    exact ⟨words, [], by decide, same.trans (List.append_nil _).symm⟩

theorem toBytes_toWords (bytes : List UInt8) : toBytes (toWords bytes) = bytes := by
  obtain ⟨words, ends, short, filled⟩ := toWords_holds bytes
  obtain ⟨left, shorter, same⟩ := toBytes_holds words
  have value : Function.Injective UInt8.toNat := fun a b => UInt8.toNat_inj.mp
  exact eq_of_flatMap_bits_append value UInt8.toNat_lt shorter (short.trans (by decide)) (same.trans filled)

/-- One word for every five bits, the last filled up. -/
theorem length_toWords (bytes : List UInt8) : (toWords bytes).length = (8 * bytes.length + 4) / 5 := by
  obtain ⟨_, ends, short, filled⟩ := toWords_holds bytes
  have lengths := congrArg List.length filled
  rw [List.length_append, length_flatMap_bits, length_flatMap_bits] at lengths
  omega

/-! ### LNURL -/

/-- The URL in the alphabet, in upper case. -/
def lnurlEncode (url : String) : String := upper (Bech32.encode "lnurl" (toWords (bytes url)))

/-- The URL inside. -/
def lnurlDecode (lnurl : String) : Option String := do
  let (hrp, words) ← Bech32.decode (lower (trim lnurl))
  if hrp = "lnurl" then ofBytes (toBytes words) else none

/-- Any URL is read back from its LNURL; and any words, and a readable part before them,
from their text. -/
theorem lnurlDecode_lnurlEncode : (∀ url : String, lnurlDecode (lnurlEncode url) = some url) ∧
    ∀ (hrp : String) (words : List UInt8), hrp ≠ "" → (∀ c ∈ hrp.toList, 33 ≤ c.toNat ∧ c.toNat ≤ 126) →
      (∀ c ∈ hrp.toList, c.isUpper = false) → (∀ w ∈ words, w < 32) →
        Bech32.decode (Bech32.encode hrp words) = some (hrp, words) := by
  constructor
  · intro url
    have small : ∀ w ∈ toWords (bytes url), w < 32 := (toWords_holds _).1
    have plain := @Bech32.encode_plain "lnurl" _ small (by simp [isWhitespace])
    have read : Bech32.decode (Bech32.encode "lnurl" (toWords (bytes url))) = some ("lnurl", toWords (bytes url)) :=
      Bech32.decode_encode (by decide) (by simp) small
    have same : lower (trim (lnurlEncode url)) = Bech32.encode "lnurl" (toWords (bytes url)) := by
      have black : ∀ c ∈ (lnurlEncode url).toList, isWhitespace c = false := by
        intro c member
        rw [lnurlEncode, upper, String.toList_ofList] at member
        obtain ⟨small, inside, rfl⟩ := List.mem_map.mp member
        rw [isWhitespace_toUpper]
        exact (plain small inside).2
      rw [trim_of_plain black, lnurlEncode, lower_upper, lower_of_plain fun c member => (plain c member).1]
    rw [lnurlDecode, same, read]
    simp [toBytes_toWords, ofBytes_bytes]
  · exact fun hrp words some_ readable _ small => Bech32.decode_encode some_ readable small

theorem lnurlDecode_lnurlEncode_twoOnes :
    Bech32.decode (Bech32.encode "ln1x" [0, 31]) = some ("ln1x", [0, 31]) :=
  lnurlDecode_lnurlEncode.2 "ln1x" [0, 31] (by decide) (by simp) (by simp) (by simp)

end HitEnter.Wire
