import HitEnter.Lib.Ascii
import HitEnter.Lib.Checksum
import HitEnter.Lib.Rows

/-! Bech32 without its limit of ninety characters: a readable part, a `1`, and five-bit
words in an alphabet of thirty-two, the last six of them a checksum. -/

namespace HitEnter.Wire.Bech32

open Lib.Hex Lib.Checksum Lib.Rows Lib.Ascii

def charset : List UInt8 := bytes "qpzry9x8gf2tvdw0s3jn54khce6mua7l"

def gen : List (BitVec 32) := [0x3b6a57b2, 0x26508e6d, 0x1ea119fa, 0x3d4233dd, 0x2a1462b3]

/-- A generator goes in where its bit of `b` is set. -/
def mix (b chk : BitVec 32) (entry : BitVec 32 × ℕ) : BitVec 32 :=
  if (b >>> entry.2) &&& 1#32 = 1#32 then chk ^^^ entry.1 else chk

/-- The register moves up by a word, and what leaves it at the top comes back in. -/
def polymodStep (chk : BitVec 32) (v : UInt8) : BitVec 32 :=
  gen.zipIdx.foldl (mix (chk >>> 25)) (((chk &&& 0x01ffffff#32) <<< 5) ^^^ v.toBitVec.setWidth 32)

def polymod (values : List UInt8) : BitVec 32 := values.foldl polymodStep 1#32

def hrpExpand (hrp : String) : List UInt8 := (bytes hrp).map (fun b : UInt8 => b >>> 5) ++ 0 :: (bytes hrp).map fun b : UInt8 => b &&& 31

/-- What stands before the last `1`, and after it. -/
def atLastOne (text : String) : Option (String × String) :=
  match text.toList.reverse.dropWhile (· ≠ '1') with
  | [] => none
  | _ :: front => some (.ofList front.reverse, .ofList (text.toList.reverse.takeWhile (· ≠ '1')).reverse)

def wordOf (byte : UInt8) : Option UInt8 := (charset.idxOf? byte).map UInt8.ofNat

/-- The readable part and the words of a lower-case text with a valid checksum. -/
def decode (text : String) : Option (String × List UInt8) := do
  let (hrp, data) ← atLastOne text
  if hrp.isEmpty || (bytes data).length < 6 || !((bytes hrp).all fun b => 33 ≤ b && b ≤ 126) then none
  let words ← (bytes data).mapM wordOf
  if polymod (hrpExpand hrp ++ words) ≠ 1#32 then none
  return (hrp, words.take (words.length - 6))

/-- The letter of a word; a word past the thirty-second has none, and nobody writes one. -/
def letter (word : UInt8) : Char := .ofNat (charset.getD word.toNat 0).toNat

/-- The six words that make the checksum, the highest first. -/
def checksumWords (chk : BitVec 32) : List UInt8 :=
  (List.range 6).map fun i => .ofBitVec ((chk >>> (5 * (5 - i)) &&& 31#32).setWidth 8)

def encode (hrp : String) (words : List UInt8) : String :=
  let chk := polymod (hrpExpand hrp ++ words ++ List.replicate 6 0) ^^^ 1#32
  hrp ++ "1" ++ .ofList ((words ++ checksumWords chk).map letter)

/-! ### The register -/

/-- What comes back in for the bits that leave at the top. -/
def feedback (b : BitVec 32) : BitVec 32 := gen.zipIdx.foldl (mix b) 0#32

/-- A step without a word. -/
def spread (chk : BitVec 32) : BitVec 32 := ((chk &&& 0x01ffffff#32) <<< 5) ^^^ feedback (chk >>> 25)

def wide (v : UInt8) : BitVec 32 := v.toBitVec.setWidth 32

private theorem mix_eq (b chk : BitVec 32) (entry : BitVec 32 × ℕ) :
    mix b chk entry = chk ^^^ if b.getLsbD entry.2 then entry.1 else 0#32 := by
  unfold mix
  rw [BitVec.and_one_eq_setWidth_ofBool_getLsbD]
  rw [BitVec.getLsbD_ushiftRight, Nat.add_zero]
  cases b.getLsbD entry.2 <;> simp

private theorem mix_start (b start : BitVec 32) (rows : List (BitVec 32 × ℕ)) :
    rows.foldl (mix b) start = start ^^^ rows.foldl (mix b) 0#32 := by
  induction rows generalizing start with
  | nil => exact BitVec.xor_zero.symm
  | cons row rest ih =>
    rw [List.foldl_cons, List.foldl_cons, ih, ih (mix b 0#32 row), mix_eq, mix_eq, BitVec.zero_xor, BitVec.xor_assoc]

/-- The generators of two rows of bits are those of both, less what is in both. -/
private theorem mix_xor (a b : BitVec 32) (rows : List (BitVec 32 × ℕ)) :
    rows.foldl (mix (a ^^^ b)) 0#32 = rows.foldl (mix a) 0#32 ^^^ rows.foldl (mix b) 0#32 := by
  induction rows with
  | nil => exact BitVec.xor_zero.symm
  | cons row rest ih =>
    have own : mix (a ^^^ b) 0#32 row = mix a 0#32 row ^^^ mix b 0#32 row := by
      rw [mix_eq, mix_eq, mix_eq, BitVec.getLsbD_xor]
      cases a.getLsbD row.2 <;> cases b.getLsbD row.2 <;> simp
    rw [List.foldl_cons, List.foldl_cons, List.foldl_cons, mix_start, mix_start a, mix_start b, ih, own]
    ac_rfl

theorem polymodStep_eq (chk : BitVec 32) (v : UInt8) : polymodStep chk v = spread chk ^^^ wide v := by
  rw [polymodStep, mix_start, spread, BitVec.xor_assoc, BitVec.xor_assoc, BitVec.xor_comm (feedback _)]
  rfl

theorem polymod_eq (values : List UInt8) : polymod values = run spread 1#32 (values.map wide) := by
  have step : polymodStep = fun chk v => spread chk ^^^ wide v := funext₂ polymodStep_eq
  rw [polymod, run, List.foldl_map, step]

theorem spread_linear : Linear spread := by
  intro a b
  have masked : (a ^^^ b) &&& 0x01ffffff#32 = (a &&& 0x01ffffff#32) ^^^ (b &&& 0x01ffffff#32) :=
    BitVec.eq_of_toNat_eq (by rw [BitVec.toNat_and, BitVec.toNat_xor, Nat.and_xor_distrib_right]; rfl)
  have fed : feedback ((a ^^^ b) >>> 25) = feedback (a >>> 25) ^^^ feedback (b >>> 25) := by
    rw [BitVec.ushiftRight_xor_distrib]
    exact mix_xor _ _ _
  rw [spread, spread, spread, masked, BitVec.shiftLeft_xor_distrib, fed]
  ac_rfl

/-! ### Thirty bits of it -/

/-- The states the register is ever in. -/
def states : Set (BitVec 32) := { chk | chk.toNat < 2 ^ 30 }

theorem xor_mem {a b : BitVec 32} (insideA : a ∈ states) (insideB : b ∈ states) : a ^^^ b ∈ states :=
  Nat.xor_lt_two_pow insideA insideB

theorem feedback_mem (b : BitVec 32) : feedback b ∈ states := by
  have general (rows : List (BitVec 32 × ℕ)) (small : ∀ row ∈ rows, row.1.toNat < 2 ^ 30) :
      rows.foldl (mix b) 0#32 ∈ states := by
    induction rows with
    | nil => exact Nat.two_pow_pos 30
    | cons row rest ih =>
      have here : mix b 0#32 row ∈ states := by
        rw [mix_eq, BitVec.zero_xor]
        split
        · exact small row List.mem_cons_self
        · exact Nat.two_pow_pos 30
      rw [List.foldl_cons, mix_start]
      exact xor_mem here (ih fun other member => small other (List.mem_cons_of_mem row member))
  exact general _ (by decide)

/-- The lower bits, moved up by a word. -/
theorem up_toNat (chk : BitVec 32) : ((chk &&& 0x01ffffff#32) <<< 5).toNat = chk.toNat % 2 ^ 25 * 32 := by
  have low : (chk &&& 0x01ffffff#32).toNat = chk.toNat % 2 ^ 25 := Nat.and_two_pow_sub_one_eq_mod chk.toNat 25
  rw [BitVec.toNat_shiftLeft, low, Nat.shiftLeft_eq]
  omega

theorem spread_mem (chk : BitVec 32) : spread chk ∈ states := by
  have up : (chk &&& 0x01ffffff#32) <<< 5 ∈ states := by
    change ((chk &&& 0x01ffffff#32) <<< 5).toNat < 2 ^ 30
    rw [up_toNat]
    omega
  exact xor_mem up (feedback_mem _)

theorem wide_toNat (v : UInt8) : (wide v).toNat = v.toNat := by
  rw [wide, BitVec.toNat_setWidth]
  exact Nat.mod_eq_of_lt (v.toNat_lt.trans (by decide))

theorem wide_injective : Function.Injective wide := fun a b same =>
  UInt8.toNat_inj.mp (by rw [← wide_toNat, ← wide_toNat, same])

theorem step_mem {v : UInt8} (word : v < 32) (chk : BitVec 32) : spread chk ^^^ wide v ∈ states := by
  have small : wide v ∈ states := by
    change (wide v).toNat < 2 ^ 30
    rw [wide_toNat]
    exact (UInt8.lt_iff_toNat_lt.mp word).trans (by decide)
  exact xor_mem (spread_mem chk) small

/-- Nothing that leaves at the top comes back as nothing at the bottom. -/
theorem feedback_low {b : BitVec 32} (top : b.toNat < 32) (none_ : (feedback b).toNat % 32 = 0) : b = 0#32 := by
  have each : ∀ n : Fin 32, (feedback (BitVec.ofNat 32 n.val)).toNat % 32 = 0 → n = 0 := by decide +kernel
  have back : BitVec.ofNat 32 b.toNat = b := by simp
  have zero : b.toNat = 0 := congrArg Fin.val (each ⟨b.toNat, top⟩ (by rwa [back]))
  exact BitVec.eq_of_toNat_eq zero

/-- Nothing but the empty register spreads to it. -/
theorem spread_injOn : Set.InjOn spread states := by
  have empty : ∀ chk ∈ states, spread chk = 0#32 → chk = 0#32 := by
    intro chk inside spread_
    have same : (chk &&& 0x01ffffff#32) <<< 5 = feedback (chk >>> 25) := BitVec.xor_eq_zero_iff.mp spread_
    have top : (chk >>> 25).toNat = chk.toNat / 2 ^ 25 := by rw [BitVec.toNat_ushiftRight, Nat.shiftRight_eq_div_pow]
    have small : chk.toNat < 2 ^ 30 := inside
    have left_ : chk >>> 25 = 0#32 := by
      refine feedback_low (by omega) ?_
      rw [← same, up_toNat]
      omega
    have low : chk.toNat % 2 ^ 25 * 32 = 0 := by
      rw [← up_toNat, same, left_]
      rfl
    have high : chk.toNat / 2 ^ 25 = 0 := by rw [← top, left_]; rfl
    exact BitVec.eq_of_toNat_eq (by rw [BitVec.toNat_zero]; omega)
  intro a insideA b insideB same
  have none_ : spread (a ^^^ b) = 0#32 := by rw [spread_linear, same, BitVec.xor_self]
  exact BitVec.xor_eq_zero_iff.mp (empty _ (xor_mem insideA insideB) none_)

/-! ### The six words -/

private theorem div_mul_xor_mod (n : ℕ) : (n / 2 ^ 5 * 2 ^ 5) ^^^ (n % 2 ^ 5) = n := by
  refine Nat.eq_of_testBit_eq fun i => ?_
  rw [Nat.testBit_xor, Nat.testBit_mul_two_pow, Nat.testBit_div_two_pow, Nat.testBit_mod_two_pow]
  by_cases low : i < 5
  · simp [low, Nat.not_le.mpr low]
  · simp [low, Nat.not_lt.mp low, Nat.sub_add_cancel (Nat.not_lt.mp low)]

/-- With room at the top, the next word of `chk` moves in. -/
theorem next_word {chk : BitVec 32} {low : ℕ} (room : chk.toNat >>> (low + 5) < 2 ^ 25) :
    spread (chk >>> (low + 5)) ^^^ (chk >>> low &&& 31#32) = chk >>> low := by
  have top : chk >>> (low + 5) >>> 25 = 0#32 := by
    refine BitVec.eq_of_toNat_eq ?_
    rw [BitVec.toNat_ushiftRight, BitVec.toNat_ushiftRight, Nat.shiftRight_eq_div_pow _ 25]
    exact Nat.div_eq_of_lt room
  have up : spread (chk >>> (low + 5)) = (chk >>> (low + 5) &&& 0x01ffffff#32) <<< 5 := by
    rw [spread, top]
    exact BitVec.xor_zero
  have word : (chk >>> low &&& 31#32).toNat = (chk.toNat >>> low) % 2 ^ 5 := by
    rw [BitVec.toNat_and, BitVec.toNat_ushiftRight]
    exact Nat.and_two_pow_sub_one_eq_mod _ 5
  refine BitVec.eq_of_toNat_eq ?_
  rw [up, BitVec.toNat_xor, up_toNat, word, BitVec.toNat_ushiftRight, BitVec.toNat_ushiftRight, Nat.mod_eq_of_lt room,
    Nat.shiftRight_add, Nat.shiftRight_eq_div_pow _ 5]
  exact div_mul_xor_mod _

private theorem wide_word (chk : BitVec 32) : wide (.ofBitVec ((chk &&& 31#32).setWidth 8)) = chk &&& 31#32 := by
  have word : (chk &&& 31#32).toNat = chk.toNat % 2 ^ 5 := Nat.and_two_pow_sub_one_eq_mod _ 5
  refine BitVec.eq_of_toNat_eq ?_
  rw [wide_toNat, UInt8.toNat_ofBitVec, BitVec.toNat_setWidth, word]
  omega

/-- The six words of a state lead the empty register to it. -/
theorem run_checksumWords {chk : BitVec 32} (inside : chk ∈ states) :
    run spread 0#32 ((checksumWords chk).map wide) = chk := by
  have small : chk.toNat < 2 ^ 30 := inside
  have room (low : ℕ) : chk.toNat >>> (low + 5) < 2 ^ 25 := by
    rw [Nat.shiftRight_eq_div_pow]
    refine Nat.div_lt_of_lt_mul (small.trans_le ?_)
    rw [← pow_add]
    exact Nat.pow_le_pow_right Nat.two_pos (by omega)
  have words : (checksumWords chk).map wide = [25, 20, 15, 10, 5, 0].map fun low => chk >>> low &&& 31#32 := by
    rw [checksumWords, List.map_map, show [25, 20, 15, 10, 5, 0] = (List.range 6).map fun i => 5 * (5 - i) from rfl,
      List.map_map]
    exact List.map_congr_left fun i _ => wide_word _
  have none_ : chk >>> 30 = 0#32 := by
    refine BitVec.eq_of_toNat_eq ?_
    rw [BitVec.toNat_ushiftRight, Nat.shiftRight_eq_div_pow]
    exact Nat.div_eq_of_lt small
  have empty : spread 0#32 ^^^ (chk >>> 25 &&& 31#32) = chk >>> 25 := by
    rw [← none_]
    exact next_word (room 25)
  rw [words]
  simp only [List.map_cons, List.map_nil, run_cons, empty]
  rw [next_word (room 20), next_word (room 15), next_word (room 10), next_word (room 5), next_word (room 0)]
  exact BitVec.ushiftRight_zero _

/-- With its checksum, every row of values checks. -/
theorem polymod_checksum (values : List UInt8) :
    polymod (values ++ checksumWords (polymod (values ++ List.replicate 6 0) ^^^ 1#32)) = 1#32 := by
  have zeros : polymod (values ++ List.replicate 6 0) =
      run spread (run spread 1#32 (values.map wide)) (List.replicate 6 0#32) := by
    rw [polymod_eq, List.map_append, run_append, List.map_replicate]
    rfl
  have inside : polymod (values ++ List.replicate 6 0) ^^^ 1#32 ∈ states := by
    rw [zeros, run_zeros, Function.iterate_succ_apply']
    exact xor_mem (spread_mem _) (show (1#32).toNat < 2 ^ 30 by decide)
  have long : ((checksumWords (polymod (values ++ List.replicate 6 0) ^^^ 1#32)).map wide).length = 6 := by
    simp [checksumWords]
  rw [polymod_eq, List.map_append, run_append]
  refine run_eq_target spread_linear ?_
  rw [run_checksumWords inside, long, zeros]

/-- A value exchanged for another word does not check. -/
theorem polymod_exchange {front back : List UInt8} {a b : UInt8} (wordA : a < 32) (wordB : b < 32)
    (words : ∀ w ∈ back, w < 32) (other : a ≠ b) : polymod (front ++ a :: back) ≠ polymod (front ++ b :: back) := by
  rw [polymod_eq, polymod_eq, List.map_append, List.map_append, List.map_cons, List.map_cons]
  refine run_exchange spread_injOn ?_ (step_mem wordA _) (step_mem wordB _) (wide_injective.ne other)
  intro chk _ v member
  obtain ⟨w, inside, rfl⟩ := List.mem_map.mp member
  exact step_mem (words w inside) chk

/-! ### Texts -/

/-- A letter of the alphabet. -/
def IsLetter (c : Char) : Prop := ∃ word < 32, letter word = c

theorem letter_spec {word : UInt8} (small : word < 32) :
    (letter word).toNat < 128 ∧ letter word ≠ '1' ∧ (letter word).isUpper = false ∧
      Lib.Text.isWhitespace (letter word) = false ∧ wordOf (UInt8.ofNat (letter word).toNat) = some word := by
  have each : ∀ n : Fin 32, (letter (UInt8.ofNat n.val)).toNat < 128 ∧ letter (UInt8.ofNat n.val) ≠ '1' ∧
      (letter (UInt8.ofNat n.val)).isUpper = false ∧ Lib.Text.isWhitespace (letter (UInt8.ofNat n.val)) = false ∧
      wordOf (UInt8.ofNat (letter (UInt8.ofNat n.val)).toNat) = some (UInt8.ofNat n.val) := by decide +kernel
  have here := each ⟨word.toNat, UInt8.lt_iff_toNat_lt.mp small⟩
  rwa [UInt8.ofNat_toNat] at here

theorem wordOf_spec {byte word : UInt8} (read : wordOf byte = some word) :
    word < 32 ∧ byte < 128 ∧ (letter word).toNat = byte.toNat := by
  have each : ∀ n : Fin 256, (wordOf (UInt8.ofNat n.val)).all (fun w => w < 32 ∧ n.val < 128 ∧ (letter w).toNat = n.val) =
      true := by decide +kernel
  have here := each ⟨byte.toNat, byte.toNat_lt⟩
  rw [UInt8.ofNat_toNat, read, Option.all_some, decide_eq_true_eq] at here
  exact ⟨here.1, UInt8.lt_iff_toNat_lt.mpr here.2.1, here.2.2⟩

theorem bytes_letters {words : List UInt8} (small : ∀ w ∈ words, w < 32) :
    (bytes (.ofList (words.map letter))).mapM wordOf = some words := by
  have ascii : IsAscii (.ofList (words.map letter)) := by
    intro c member
    rw [String.toList_ofList] at member
    obtain ⟨w, inside, rfl⟩ := List.mem_map.mp member
    exact (letter_spec (small w inside)).1
  rw [bytes_of_ascii ascii, String.toList_ofList, List.map_map]
  exact mapM_map_eq_some fun w member => (letter_spec (small w member)).2.2.2.2

/-- The last `1` is where none comes after it. -/
theorem atLastOne_eq {front back : List Char} (last : '1' ∉ back) :
    atLastOne (.ofList (front ++ '1' :: back)) = some (.ofList front, .ofList back) := by
  have plain : ∀ c ∈ back.reverse, (decide (c ≠ '1')) = true := by
    intro c member
    exact decide_eq_true fun same => last (same ▸ List.mem_reverse.mp member)
  have reversed : (front ++ '1' :: back).reverse = back.reverse ++ '1' :: front.reverse := by simp
  unfold atLastOne
  rw [String.toList_ofList, reversed, List.dropWhile_append_of_pos plain, List.takeWhile_append_of_pos plain]
  simp

theorem atLastOne_some {text hrp data : String} (split : atLastOne text = some (hrp, data)) :
    text.toList = hrp.toList ++ '1' :: data.toList ∧ '1' ∉ data.toList := by
  unfold atLastOne at split
  have whole := List.takeWhile_append_dropWhile (p := fun c => decide (c ≠ '1')) (l := text.toList.reverse)
  have stops := List.head?_dropWhile_not (fun c => decide (c ≠ '1')) text.toList.reverse
  cases rest : text.toList.reverse.dropWhile fun c => decide (c ≠ '1') with
  | nil =>
    rw [rest] at split
    cases split
  | cons c front =>
    rw [rest] at split stops whole
    obtain rfl : c = '1' := by simpa using stops
    cases split
    rw [String.toList_ofList, String.toList_ofList, List.mem_reverse]
    constructor
    · have forth := congrArg List.reverse whole
      rw [List.reverse_reverse] at forth
      exact forth.symm.trans (by simp)
    · intro one
      simpa using List.mem_takeWhile_imp one

/-! ### Round trip -/

theorem checksumWords_lt {chk : BitVec 32} {w : UInt8} (member : w ∈ checksumWords chk) : w < 32 := by
  obtain ⟨i, _, rfl⟩ := List.mem_map.mp member
  have word : (chk >>> (5 * (5 - i)) &&& 31#32).toNat = (chk >>> (5 * (5 - i))).toNat % 2 ^ 5 :=
    Nat.and_two_pow_sub_one_eq_mod _ 5
  rw [UInt8.lt_iff_toNat_lt, UInt8.toNat_ofBitVec, BitVec.toNat_setWidth, word]
  exact (Nat.mod_le _ _).trans_lt (Nat.mod_lt _ (by decide))

/-- Nothing is added to the readable part that is in upper case or white. -/
theorem encode_plain {hrp : String} {words : List UInt8} (small : ∀ w ∈ words, w < 32)
    (plain : ∀ c ∈ hrp.toList, c.isUpper = false ∧ Lib.Text.isWhitespace c = false) :
    ∀ c ∈ (encode hrp words).toList, c.isUpper = false ∧ Lib.Text.isWhitespace c = false := by
  have text : (encode hrp words).toList = hrp.toList ++ ['1'] ++
      (words ++ checksumWords (polymod (hrpExpand hrp ++ words ++ List.replicate 6 0) ^^^ 1#32)).map letter := by
    simp [encode]
  intro c member
  rw [text] at member
  rcases List.mem_append.mp member with front | back
  · rcases List.mem_append.mp front with inHrp | one
    · exact plain c inHrp
    · rw [List.mem_singleton.mp one]
      decide
  · obtain ⟨w, inside, rfl⟩ := List.mem_map.mp back
    have word : w < 32 := (List.mem_append.mp inside).elim (small w) checksumWords_lt
    obtain ⟨_, _, lower, black, _⟩ := letter_spec word
    exact ⟨lower, black⟩

/-- What `decode` makes of a text whose parts are known. -/
theorem decode_eq {text hrp data : String} {words : List UInt8} (split : atLastOne text = some (hrp, data))
    (read : (bytes data).mapM wordOf = some words) : decode text =
      if hrp.isEmpty || (bytes data).length < 6 || !((bytes hrp).all fun b => 33 ≤ b && b ≤ 126) then none
      else if polymod (hrpExpand hrp ++ words) ≠ 1#32 then none
      else some (hrp, words.take (words.length - 6)) := by
  simp only [decode, split, read, Option.bind_eq_bind, Option.bind_some]
  rfl

theorem decode_unchecked {text hrp data : String} {words : List UInt8} (split : atLastOne text = some (hrp, data))
    (read : (bytes data).mapM wordOf = some words) (wrong : polymod (hrpExpand hrp ++ words) ≠ 1#32) :
    decode text = none := by
  rw [decode_eq split read, if_pos wrong, ite_self]

/-- What is encoded from words decodes to them; a `1` in the readable part is no matter. -/
theorem decode_encode {hrp : String} {words : List UInt8} (some_ : hrp ≠ "")
    (readable : ∀ c ∈ hrp.toList, 33 ≤ c.toNat ∧ c.toNat ≤ 126) (small : ∀ w ∈ words, w < 32) :
    decode (encode hrp words) = some (hrp, words) := by
  let chk := polymod (hrpExpand hrp ++ words ++ List.replicate 6 0) ^^^ 1#32
  let all := words ++ checksumWords chk
  have smallAll : ∀ w ∈ all, w < 32 := by
    intro w member
    rcases List.mem_append.mp member with word | check
    · exact small w word
    · exact checksumWords_lt check
  have noOne : '1' ∉ all.map letter := by
    intro one
    obtain ⟨w, member, same⟩ := List.mem_map.mp one
    exact (letter_spec (smallAll w member)).2.1 same
  have text : encode hrp words = .ofList (hrp.toList ++ '1' :: all.map letter) := by
    refine String.toList_inj.mp ?_
    simp [encode, all, chk]
  have split : atLastOne (encode hrp words) = some (hrp, .ofList (all.map letter)) := by
    rw [text, atLastOne_eq noOne, String.ofList_toList]
  have read := bytes_letters smallAll
  have long : 6 ≤ all.length := by simp [all, checksumWords]
  have long' : (bytes (.ofList (all.map letter))).length = all.length := (mapM_eq_some_iff.mp read).length_eq
  have plain : (bytes hrp).all (fun b => 33 ≤ b && b ≤ 126) = true := by
    rw [bytes_of_ascii fun c member => (readable c member).2.trans_lt (by decide), List.all_map, List.all_eq_true]
    intro c member
    obtain ⟨least, most⟩ := readable c member
    have value : (UInt8.ofNat c.toNat).toNat = c.toNat := Nat.mod_eq_of_lt (most.trans_lt (by decide))
    simp only [Function.comp, Bool.and_eq_true, decide_eq_true_eq, UInt8.le_iff_toNat_le, value]
    exact ⟨least, most⟩
  have checks : polymod (hrpExpand hrp ++ all) = 1#32 := by
    rw [← List.append_assoc]
    exact polymod_checksum _
  have notEmpty : hrp.isEmpty = false := by simpa using some_
  have cut : all.take (all.length - 6) = words := by
    have six : all.length - 6 = words.length := by simp [all, checksumWords]
    rw [six]
    exact List.take_left
  rw [decode_eq split read, notEmpty, plain, long', checks, cut]
  simp [long]

/-! ### One character exchanged -/

/-- Where a text whose last `1` comes before a certain character is split. -/
theorem atLastOne_before {front back : List Char} {old : Char} {hrp data : String} (last : '1' ∉ old :: back)
    (split : atLastOne (.ofList (front ++ old :: back)) = some (hrp, data)) :
    ∃ mid, front = hrp.toList ++ '1' :: mid ∧ data = .ofList (mid ++ old :: back) ∧ '1' ∉ mid := by
  obtain ⟨whole, noOne⟩ := atLastOne_some split
  rw [String.toList_ofList] at whole
  rcases List.append_eq_append_iff.mp whole with ⟨rest, _, later⟩ | ⟨mid, before, later⟩
  · exact absurd (later ▸ List.mem_append_right rest List.mem_cons_self) last
  · cases mid with
    | nil =>
      rw [List.nil_append] at later
      exact absurd (later ▸ List.mem_cons_self) last
    | cons c mid =>
      obtain ⟨rfl, inside⟩ := List.cons.inj later
      have same : data.toList = mid ++ old :: back := inside
      refine ⟨mid, before, ?_, fun one => noOne (same ▸ List.mem_append_left _ one)⟩
      rw [← same, String.ofList_toList]

/-- A character that is read is a letter, and its word the only one read. -/
theorem letter_read {c : Char} {words : List UInt8} (read : (String.utf8EncodeChar c).mapM wordOf = some words) :
    ∃ word < 32, letter word = c ∧ words = [word] := by
  have small : List.Forall₂ (fun b w => b < 128 ∧ wordOf b = some w) (String.utf8EncodeChar c) words :=
    (mapM_eq_some_iff.mp read).imp fun b w here => ⟨(wordOf_spec here).2.1, here⟩
  have ascii : c.toNat < 128 := ascii_of_bytes ((List.forall₂_and_left _ _).mp small).1
  rw [encode_ascii ascii, List.mapM_cons, List.mapM_nil] at read
  simp only [Option.bind_eq_bind, Option.bind_eq_some_iff, Option.pure_def, Option.some.injEq] at read
  obtain ⟨word, here, _, rfl, rfl⟩ := read
  obtain ⟨least, _, value⟩ := wordOf_spec here
  have byte : (UInt8.ofNat c.toNat).toNat = c.toNat := Nat.mod_eq_of_lt (ascii.trans (by decide))
  exact ⟨word, least, Char.toNat_inj.mp (value.trans byte), rfl⟩

/-- What is read of a text with a certain letter in it, before the letter, of it and after. -/
theorem words_split {mid back : List Char} {c : Char} {words : List UInt8}
    (read : (bytes (.ofList (mid ++ c :: back))).mapM wordOf = some words) :
    ∃ front word later, (mid.flatMap String.utf8EncodeChar).mapM wordOf = some front ∧
      (back.flatMap String.utf8EncodeChar).mapM wordOf = some later ∧ word < 32 ∧ letter word = c ∧
      words = front ++ word :: later := by
  rw [bytes_ofList, List.flatMap_append, List.flatMap_cons, List.mapM_append, List.mapM_append] at read
  simp only [Option.bind_eq_bind, Option.bind_eq_some_iff, Option.pure_def, Option.some.injEq] at read
  obtain ⟨front, before, _, ⟨one, here, later, after, rfl⟩, rfl⟩ := read
  obtain ⟨word, small, same, rfl⟩ := letter_read here
  exact ⟨front, word, later, before, after, small, same, rfl⟩

theorem words_join {mid back : List Char} {front later : List UInt8} {word : UInt8}
    (before : (mid.flatMap String.utf8EncodeChar).mapM wordOf = some front)
    (after : (back.flatMap String.utf8EncodeChar).mapM wordOf = some later) (small : word < 32) :
    (bytes (.ofList (mid ++ letter word :: back))).mapM wordOf = some (front ++ word :: later) := by
  obtain ⟨ascii, _, _, _, own⟩ := letter_spec small
  rw [bytes_ofList, List.flatMap_append, List.flatMap_cons, encode_ascii ascii, List.mapM_append, before,
    List.mapM_append, after, List.mapM_cons, own]
  rfl

theorem lt_of_read {row words : List UInt8} (read : row.mapM wordOf = some words) : ∀ w ∈ words, w < 32 := by
  have each : List.Forall₂ (fun w b => w < 32 ∧ wordOf b = some w) words row :=
    (mapM_eq_some_iff.mp read).flip.imp fun w b here => ⟨(wordOf_spec here).1, here⟩
  exact ((List.forall₂_and_left _ _).mp each).1

/-- A text that decodes does not with any one letter after its last `1` exchanged. -/
theorem decode_exchange {front back : List Char} {old new : Char} (accepted : decode (.ofList (front ++ old :: back)) ≠ none)
    (last : '1' ∉ old :: back) (known : IsLetter new) (other : new ≠ old) :
    decode (.ofList (front ++ new :: back)) = none := by
  cases split : atLastOne (.ofList (front ++ old :: back)) with
  | none =>
    rw [decode, split] at accepted
    exact absurd rfl accepted
  | some parts =>
    obtain ⟨hrp, data⟩ := parts
    obtain ⟨mid, rfl, rfl, noOne⟩ := atLastOne_before last split
    cases read : (bytes (.ofList (mid ++ old :: back))).mapM wordOf with
    | none =>
      simp only [decode, split, read, Option.bind_eq_bind, Option.bind_some, Option.bind_none] at accepted
      simp at accepted
    | some words =>
      obtain ⟨front, word, later, before, after, small, rfl, rfl⟩ := words_split read
      obtain ⟨exchanged, small', rfl⟩ := known
      have split' : atLastOne (.ofList (hrp.toList ++ '1' :: mid ++ letter exchanged :: back)) =
          some (hrp, .ofList (mid ++ letter exchanged :: back)) := by
        have none_ : '1' ∉ mid ++ letter exchanged :: back := by
          intro one
          rcases List.mem_append.mp one with inMid | inRest
          · exact noOne inMid
          · rcases List.mem_cons.mp inRest with here | inBack
            · exact (letter_spec small').2.1 here.symm
            · exact last (List.mem_cons_of_mem _ inBack)
        have start := @atLastOne_eq hrp.toList _ none_
        rw [String.ofList_toList] at start
        rw [List.append_assoc]
        exact start
      have read' : (bytes (.ofList (mid ++ letter exchanged :: back))).mapM wordOf =
          some (front ++ exchanged :: later) := by
        exact words_join before after small'
      have words : ∀ w ∈ later, w < 32 := lt_of_read after
      have apart : polymod (hrpExpand hrp ++ (front ++ exchanged :: later)) ≠
          polymod (hrpExpand hrp ++ (front ++ word :: later)) := by
        rw [← List.append_assoc, ← List.append_assoc]
        exact polymod_exchange small' small words fun same => other (congrArg letter same)
      have checks : polymod (hrpExpand hrp ++ (front ++ word :: later)) = 1#32 := by
        by_contra wrong
        exact accepted (decode_unchecked split read wrong)
      rw [checks] at apart
      exact decode_unchecked split' read' apart

theorem decode_exchange_lastLetter : decode (.ofList ("a12uel5".toList ++ 'q' :: [])) = none :=
  @decode_exchange "a12uel5".toList [] 'l' 'q' (by decide +kernel) (by decide) ⟨0, by decide, by decide +kernel⟩ (by decide)

end HitEnter.Wire.Bech32
