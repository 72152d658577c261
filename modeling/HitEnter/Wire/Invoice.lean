import HitEnter.Lib.Decimal
import HitEnter.Wire.Words

/-! Lightning invoices: a readable part with the currency and the amount, and words with
the time, the fields by kind and length, and a signature that is not checked. -/

namespace HitEnter.Wire

open Lib.Decimal Lib.Ascii Lib.Text Lib.Hex

/-- What is left of `text` after it begins with `start`. -/
def stripStart (start text : String) : Option String :=
  if start.toList.isPrefixOf text.toList then some (.ofList (text.toList.drop start.toList.length)) else none

@[simp] theorem stripStart_append (start text : String) : stripStart start (start ++ text) = some text := by
  simp [stripStart]

theorem stripStart_of_head {start text : String} (other : start.toList.head? ≠ text.toList.head?)
    (some_ : start.toList ≠ []) : stripStart start text = none := by
  unfold stripStart
  rw [if_neg]
  intro begins
  obtain ⟨rest, same⟩ := List.isPrefixOf_iff_prefix.mp begins
  rw [← same, List.head?_append_of_ne_nil _ some_] at other
  exact other rfl

/-- Thirty-two bytes. -/
abbrev Hash := { row : List UInt8 // row.length = 32 }

def toHash (row : List UInt8) : Option Hash := if full : row.length = 32 then some ⟨row, full⟩ else none

/-- What an invoice is checked for. -/
structure Invoice where
  currency : String
  amountMsat : Option UInt64
  timestamp : UInt64
  paymentHash : Option Hash
  descriptionHash : Option Hash
  description : Option String
  expiry : UInt64
deriving DecidableEq

/-- The words of the signature and the recovery id. -/
def signatureWords : ℕ := 104

def checkedMul (a b : UInt64) : Option UInt64 := if a.toNat * b.toNat < 2 ^ 64 then some (a * b) else none

/-- A number of bitcoin, or of the parts of it that a multiplier names, as an amount. -/
def scale (mult : Option Char) (n : UInt64) : Option UInt64 :=
  if mult = none then checkedMul n 100000000000
  else if mult = some 'm' then checkedMul n 100000000
  else if mult = some 'u' then checkedMul n 100000
  else if mult = some 'n' then checkedMul n 100
  else if n % 10 = 0 then some (n / 10)
  else none

/-- An amount: digits and perhaps a multiplier, in bitcoin. -/
def parseAmount (text : String) : Option UInt64 := do
  let mult := text.toList.getLast?.filter fun c => c = 'm' || c = 'u' || c = 'n' || c = 'p'
  let digits := if mult.isSome then text.toList.dropLast else text.toList
  if digits.isEmpty || digits.head? = some '0' || !(digits.all Char.isDigit) then none
  scale mult (← parseU64 (.ofList digits))

/-- The largest multiplier that divides it. -/
def formatAmount (msat : UInt64) : String :=
  match [('m', (100000000 : UInt64)), ('u', 100000), ('n', 100)].find? fun row => msat % row.2 = 0 with
  | some (mult, per) => (msat / per).toNat.repr ++ .singleton mult
  | none => (msat * 10).toNat.repr ++ "p"

/-- A word after those of a number. -/
def addWord (a : UInt64) (w : UInt8) : UInt64 := (a <<< 5) ||| w.toUInt64

/-- A number in words; the bits past the first sixty-four are lost at the top. -/
def readNumber (words : List UInt8) : UInt64 := words.foldl addWord 0

/-- A tagged field is taken in; an unknown kind, and a hash of another length, is passed over. -/
def Invoice.field (inv : Invoice) (kind : UInt8) (words : List UInt8) : Invoice :=
  if kind = 1 ∧ words.length = 52 then { inv with paymentHash := toHash (toBytes words) }
  else if kind = 23 ∧ words.length = 52 then { inv with descriptionHash := toHash (toBytes words) }
  else if kind = 13 then { inv with description := ofBytes (toBytes words) }
  else if kind = 6 then { inv with expiry := readNumber words }
  else inv

/-- Field after field: its kind, its length in two words, and as many words. -/
def readFields (inv : Invoice) : List UInt8 → Option Invoice
  | [] => some inv
  | kind :: high :: low :: rest =>
    let len := high.toNat <<< 5 ||| low.toNat
    if rest.length < len then none else readFields (inv.field kind (rest.take len)) (rest.drop len)
  | _ => none
termination_by data => data.length
decreasing_by
  simp only [List.length_drop, List.length_cons]
  omega

def Invoice.decode (text : String) : Option Invoice := do
  let plain := lower (trim text)
  let (hrp, words) ← Bech32.decode ((stripStart "lightning:" plain).getD plain)
  let rest ← stripStart "ln" hrp
  let currency := rest.toList.takeWhile fun c => !c.isDigit
  let amount := rest.toList.dropWhile fun c => !c.isDigit
  if currency.isEmpty then none
  let amountMsat ← if amount.isEmpty then some none else (parseAmount (.ofList amount)).map some
  if words.length < 7 + signatureWords then none
  let data := words.take (words.length - signatureWords)
  readFields
    { currency := .ofList currency, amountMsat, timestamp := readNumber (data.take 7), paymentHash := none
      descriptionHash := none, description := none, expiry := 3600 }
    (data.drop 7)

/-- A field, with its kind and length. -/
def writeField (kind : UInt8) (data : List UInt8) : List UInt8 :=
  kind :: .ofNat (data.length >>> 5) :: .ofNat (data.length &&& 31) :: data

theorem shiftRight_toNat (x : UInt64) : (x >>> 5).toNat = x.toNat / 32 := by
  rw [UInt64.toNat_shiftRight, Nat.shiftRight_eq_div_pow]
  rfl

/-- The words of a number, before those of `e`; without leading zeros, so none for 0. -/
def numberWords (x : UInt64) (e : List UInt8) : List UInt8 :=
  if x = 0 then e else numberWords (x >>> 5) ((x &&& 31).toUInt8 :: e)
termination_by x.toNat
decreasing_by
  have positive : 0 < x.toNat := UInt64.lt_iff_toNat_lt.mp (UInt64.pos_iff_ne_zero.mpr ‹_›)
  rw [shiftRight_toNat]
  omega

/-- The readable part, before the words. -/
def Invoice.hrp (inv : Invoice) : String := "ln" ++ inv.currency ++ (inv.amountMsat.map formatAmount).getD ""

/-- The words of the fields, before the signature. -/
def Invoice.words (inv : Invoice) : List UInt8 :=
  ((List.range 7).reverse.map fun k => ((inv.timestamp >>> .ofNat (5 * k)) &&& 31).toUInt8) ++
    (inv.paymentHash.elim [] fun h => writeField 1 (toWords h.val)) ++
    (inv.descriptionHash.elim [] fun h => writeField 23 (toWords h.val)) ++
    (inv.description.elim [] fun text => writeField 13 (toWords (bytes text))) ++
    if inv.expiry ≠ 3600 then writeField 6 (numberWords inv.expiry []) else []

/-- What an invoice holds, under a signature of zeros. -/
def Invoice.encodeUnsigned (inv : Invoice) : String :=
  Bech32.encode inv.hrp (inv.words ++ List.replicate signatureWords 0)

/-! ### Amounts -/

theorem scale_milli (n : UInt64) : scale (some 'm') n = checkedMul n 100000000 := by
  rw [scale, if_neg nofun, if_pos rfl]

theorem scale_micro (n : UInt64) : scale (some 'u') n = checkedMul n 100000 := by
  rw [scale, if_neg nofun, if_neg (by decide), if_pos rfl]

theorem scale_nano (n : UInt64) : scale (some 'n') n = checkedMul n 100 := by
  rw [scale, if_neg nofun, if_neg (by decide), if_neg (by decide), if_pos rfl]

theorem scale_pico (n : UInt64) : scale (some 'p') n = if n % 10 = 0 then some (n / 10) else none := by
  rw [scale, if_neg nofun, if_neg (by decide), if_neg (by decide), if_neg (by decide)]

/-- A number greater than 0 is written without a leading zero. -/
theorem head_toDigits {n : ℕ} (some_ : 0 < n) : (Nat.toDigits 10 n).head? ≠ some '0' := by
  induction n using Nat.strongRecOn with
  | ind n ih =>
    by_cases small : n < 10
    · rw [Nat.toDigits_of_lt_base small]
      interval_cases n <;> decide
    · have large : 10 ≤ n := Nat.le_of_not_lt small
      rw [Nat.toDigits_of_base_le (by decide) large, List.head?_append_of_ne_nil _ Nat.toDigits_ne_nil]
      exact ih (n / 10) (by omega) (by omega)

/-- A number and a multiplier are read as what they are. -/
theorem parseAmount_mult {n : ℕ} {mult : Char} (some_ : 0 < n) (small : n < 2 ^ 64)
    (known : mult = 'm' ∨ mult = 'u' ∨ mult = 'n' ∨ mult = 'p') :
    parseAmount (n.repr ++ .singleton mult) = scale (some mult) (.ofNat n) := by
  have row : (n.repr ++ String.singleton mult).toList = Nat.toDigits 10 n ++ [mult] := by
    rw [String.toList_append, Nat.toList_repr, String.singleton, String.toList_push, String.toList_empty,
      List.nil_append]
  have noZero := head_toDigits some_
  have digits : ∀ c ∈ Nat.toDigits 10 n, c.isDigit = true := fun c member =>
    Nat.isDigit_of_mem_toDigits (by decide) (by decide) member
  have text : String.ofList (Nat.toDigits 10 n) = n.repr := by rw [← Nat.toList_repr, String.ofList_toList]
  have read : parseU64 n.repr = some (.ofNat n) := by rw [parseU64, parseUnsigned_repr small, Option.map_some]
  have named : ((mult = 'm' ∨ mult = 'u') ∨ mult = 'n') ∨ mult = 'p' := by simpa [or_assoc] using known
  unfold parseAmount
  rw [row]
  simp [Option.filter, named, Nat.toDigits_ne_nil, noZero, text, read]
  intro c member other
  exact absurd (digits c member) (by simp [other])

theorem div_mul_whole {msat per : UInt64} (whole : msat % per = 0) : (msat / per).toNat * per.toNat = msat.toNat := by
  rw [UInt64.toNat_div]
  exact Nat.div_mul_cancel (Nat.dvd_of_mod_eq_zero (by rw [← UInt64.toNat_mod, whole]; rfl))

/-- What was divided by a multiplier that divides it is multiplied back. -/
theorem checkedMul_div {msat per : UInt64} (whole : msat % per = 0) : checkedMul (msat / per) per = some msat := by
  have value := div_mul_whole whole
  rw [checkedMul, if_pos (by rw [value]; exact msat.toNat_lt)]
  refine congrArg some (UInt64.toNat_inj.mp ?_)
  rw [UInt64.toNat_mul, value, Nat.mod_eq_of_lt msat.toNat_lt]

/-- An amount is written as a number and a multiplier, and the multiplier makes the amount of the number. -/
theorem formatAmount_spec (msat : UInt64) : ∃ (n : UInt64) (mult : Char),
    (mult = 'm' ∨ mult = 'u' ∨ mult = 'n' ∨ mult = 'p') ∧ formatAmount msat = n.toNat.repr ++ .singleton mult ∧
      (0 < msat.toNat → msat.toNat * 10 < 2 ^ 64 ∨ msat % 100 = 0 → 0 < n.toNat ∧ scale (some mult) n = some msat) := by
  have divided {per : UInt64} (whole : msat % per = 0) (some_ : 0 < msat.toNat) : 0 < (msat / per).toNat := by
    have value := div_mul_whole whole
    exact Nat.pos_of_ne_zero fun zero => by rw [zero, Nat.zero_mul] at value; omega
  by_cases milli : msat % 100000000 = 0
  · refine ⟨msat / 100000000, 'm', .inl rfl, by simp [formatAmount, milli], fun some_ _ => ⟨divided milli some_, ?_⟩⟩
    rw [scale_milli, checkedMul_div milli]
  by_cases micro : msat % 100000 = 0
  · refine ⟨msat / 100000, 'u', .inr (.inl rfl), by simp [formatAmount, milli, micro], fun some_ _ => ⟨divided micro some_, ?_⟩⟩
    rw [scale_micro, checkedMul_div micro]
  by_cases nano : msat % 100 = 0
  · refine ⟨msat / 100, 'n', .inr (.inr (.inl rfl)), by simp [formatAmount, milli, micro, nano],
      fun some_ _ => ⟨divided nano some_, ?_⟩⟩
    rw [scale_nano, checkedMul_div nano]
  · refine ⟨msat * 10, 'p', .inr (.inr (.inr rfl)), ?_, fun some_ fits => ?_⟩
    · simp only [formatAmount, List.find?_cons, milli, micro, nano, decide_false, List.find?_nil]
      congr 1
    have tenths : (msat * 10).toNat = msat.toNat * 10 := by
      rw [UInt64.toNat_mul]
      exact Nat.mod_eq_of_lt (fits.resolve_right nano)
    have whole : msat * 10 % 10 = 0 := by
      refine UInt64.toNat_inj.mp ?_
      rw [UInt64.toNat_mod, tenths]
      exact Nat.mul_mod_left _ _
    have back : msat * 10 / 10 = msat := by
      refine UInt64.toNat_inj.mp ?_
      rw [UInt64.toNat_div, tenths]
      exact Nat.mul_div_cancel _ (by decide)
    exact ⟨by omega, by rw [scale_pico, if_pos whole, back]⟩

theorem parseAmount_formatAmount {msat : UInt64} (some_ : 0 < msat.toNat)
    (fits : msat.toNat * 10 < 2 ^ 64 ∨ msat % 100 = 0) :
    parseAmount (formatAmount msat) = some msat := by
  obtain ⟨n, mult, known, written, scaled⟩ := formatAmount_spec msat
  obtain ⟨positive, back⟩ := scaled some_ fits
  rw [written, parseAmount_mult positive n.toNat_lt known, UInt64.ofNat_toNat, back]

/-! ### Numbers in words -/

/-- A number is what is above its last word, and that word. -/
theorem addWord_last (x : UInt64) : addWord (x >>> 5) (x &&& 31).toUInt8 = x := by
  have low : (x &&& 31).toUInt8.toUInt64.toNat = x.toNat % 2 ^ 5 := by
    have word : (x &&& 31).toNat = x.toNat % 2 ^ 5 := Nat.and_two_pow_sub_one_eq_mod x.toNat 5
    rw [UInt8.toNat_toUInt64, UInt64.toNat_toUInt8, word]
    omega
  have high : ((x >>> 5) <<< 5).toNat = (x.toNat / 32) <<< 5 := by
    have small := x.toNat_lt
    rw [UInt64.toNat_shiftLeft, shiftRight_toNat]
    refine Nat.mod_eq_of_lt ?_
    change (x.toNat / 32) <<< 5 < _
    rw [Nat.shiftLeft_eq]
    omega
  refine UInt64.toNat_inj.mp ?_
  rw [addWord, UInt64.toNat_or, high, low, ← Nat.shiftLeft_add_eq_or_of_lt (Nat.mod_lt _ (by decide)), Nat.shiftLeft_eq]
  omega

private theorem read_numberWords (x : UInt64) (e : List UInt8) : (numberWords x e).foldl addWord 0 = e.foldl addWord x := by
  induction x, e using numberWords.induct with
  | case1 e => rw [numberWords, if_pos rfl]
  | case2 x e some_ ih => rw [numberWords, if_neg some_, ih, List.foldl_cons, addWord_last]

theorem readNumber_numberWords (x : UInt64) : readNumber (numberWords x []) = x := read_numberWords x []

private theorem shiftRight_words {x : UInt64} {n : ℕ} (few : n < 12) :
    (x >>> .ofNat (5 * n)) >>> 5 = x >>> .ofNat (5 * (n + 1)) := by
  have amount (k : ℕ) (inside : k ≤ 12) : (x >>> .ofNat (5 * k)).toNat = x.toNat / 2 ^ (5 * k) := by
    rw [UInt64.toNat_shiftRight, UInt64.toNat_ofNat', Nat.shiftRight_eq_div_pow]
    congr 2
    omega
  refine UInt64.toNat_inj.mp ?_
  rw [shiftRight_toNat, amount n few.le, amount (n + 1) few, Nat.div_div_eq_div_mul]
  rw [Nat.mul_add, Nat.pow_add]

/-- The words of the lower bits come after what is above them. -/
private theorem read_lowWords {x : UInt64} {n : ℕ} (few : n ≤ 12) :
    ((List.range n).reverse.map fun k => ((x >>> .ofNat (5 * k)) &&& 31).toUInt8).foldl addWord (x >>> .ofNat (5 * n)) = x := by
  induction n with
  | zero => exact UInt64.toNat_inj.mp (by simp)
  | succ n ih =>
    rw [List.range_succ, List.reverse_append, List.reverse_singleton, List.singleton_append, List.map_cons, List.foldl_cons,
      ← shiftRight_words few, addWord_last]
    exact ih (Nat.le_of_succ_le few)

theorem readNumber_timestamp {x : UInt64} (small : x.toNat < 2 ^ 35) :
    readNumber ((List.range 7).reverse.map fun k => ((x >>> .ofNat (5 * k)) &&& 31).toUInt8) = x := by
  have above : x >>> .ofNat (5 * 7) = 0 := by
    refine UInt64.toNat_inj.mp ?_
    rw [UInt64.toNat_shiftRight, Nat.shiftRight_eq_div_pow]
    exact Nat.div_eq_of_lt small
  have read := @read_lowWords x 7 (by decide)
  rwa [above] at read

theorem lowWord_small (x : UInt64) : (x &&& 31).toUInt8 < 32 := by
  have word : (x &&& 31).toNat = x.toNat % 2 ^ 5 := Nat.and_two_pow_sub_one_eq_mod x.toNat 5
  rw [UInt8.lt_iff_toNat_lt, UInt64.toNat_toUInt8, word]
  change x.toNat % 2 ^ 5 % 2 ^ 8 < 32
  omega

theorem numberWords_small (x : UInt64) {e : List UInt8} (small : ∀ w ∈ e, w < 32) : ∀ w ∈ numberWords x e, w < 32 := by
  induction x, e using numberWords.induct with
  | case1 e => rwa [numberWords, if_pos rfl]
  | case2 x e some_ ih =>
    rw [numberWords, if_neg some_]
    exact ih (List.forall_mem_cons.mpr ⟨lowWord_small x, small⟩)

theorem length_numberWords {x : UInt64} {n : ℕ} (small : x.toNat < 32 ^ n) (e : List UInt8) :
    (numberWords x e).length ≤ n + e.length := by
  induction n generalizing x e with
  | zero =>
    have zero : x = 0 := UInt64.toNat_inj.mp (Nat.lt_one_iff.mp small)
    rw [numberWords, if_pos zero, Nat.zero_add]
  | succ n ih =>
    rw [numberWords]
    split
    · exact Nat.le_add_left _ _
    · have less : (x >>> 5).toNat < 32 ^ n := by
        rw [shiftRight_toNat]
        exact Nat.div_lt_of_lt_mul (by rwa [Nat.pow_succ'] at small)
      have := ih less ((x &&& 31).toUInt8 :: e)
      rw [List.length_cons] at this
      omega

/-! ### Fields -/

/-- A field that was written is taken in, and reading goes on behind it. -/
theorem readFields_writeField (inv : Invoice) (kind : UInt8) {data : List UInt8} (short : data.length < 2 ^ 10)
    (rest : List UInt8) : readFields inv (writeField kind data ++ rest) = readFields (inv.field kind data) rest := by
  have high : (UInt8.ofNat (data.length >>> 5)).toNat = data.length / 2 ^ 5 := by
    rw [UInt8.toNat_ofNat', Nat.shiftRight_eq_div_pow]
    exact Nat.mod_eq_of_lt (by omega)
  have low : (UInt8.ofNat (data.length &&& 31)).toNat = data.length % 2 ^ 5 := word_toNat _
  have length : (UInt8.ofNat (data.length >>> 5)).toNat <<< 5 ||| (UInt8.ofNat (data.length &&& 31)).toNat = data.length := by
    rw [high, low, ← Nat.shiftLeft_add_eq_or_of_lt (Nat.mod_lt _ (by decide)), Nat.shiftLeft_eq]
    omega
  rw [writeField, List.cons_append, List.cons_append, List.cons_append, readFields, length, List.take_left, List.drop_left]
  exact if_neg (by simp)

@[simp] theorem length_hashWords (h : Hash) : (toWords h.val).length = 52 := by rw [length_toWords, h.property]

@[simp] theorem toHash_hashWords (h : Hash) : toHash (toBytes (toWords h.val)) = some h := by
  rw [toBytes_toWords, toHash, dif_pos h.property]

theorem field_paymentHash (inv : Invoice) (h : Hash) :
    inv.field 1 (toWords h.val) = { inv with paymentHash := some h } := by simp [Invoice.field]

theorem field_descriptionHash (inv : Invoice) (h : Hash) :
    inv.field 23 (toWords h.val) = { inv with descriptionHash := some h } := by simp [Invoice.field]

theorem field_description (inv : Invoice) (text : String) :
    inv.field 13 (toWords (bytes text)) = { inv with description := some text } := by
  simp [Invoice.field, toBytes_toWords, ofBytes_bytes]

theorem field_expiry (inv : Invoice) (expiry : UInt64) :
    inv.field 6 (numberWords expiry []) = { inv with expiry } := by simp [Invoice.field, readNumber_numberWords]

/-! ### There and back -/

/-- The letters and digits of the readable part. -/
def IsPlain (c : Char) : Prop := c.isLower = true ∨ c.isDigit = true

theorem IsPlain.readable {c : Char} (plain : IsPlain c) :
    (33 ≤ c.toNat ∧ c.toNat ≤ 126) ∧ c.isUpper = false ∧ isWhitespace c = false := by
  have range : 48 ≤ c.toNat ∧ c.toNat ≤ 57 ∨ 97 ≤ c.toNat ∧ c.toNat ≤ 122 := by
    rcases plain with lower | digit
    · simp only [Char.isLower, UInt32.le_iff_toNat_le, ge_iff_le, Bool.and_eq_true, decide_eq_true_eq] at lower
      exact .inr lower
    · simp only [Char.isDigit, UInt32.le_iff_toNat_le, ge_iff_le, Bool.and_eq_true, decide_eq_true_eq] at digit
      exact .inl digit
  refine ⟨by omega, ?_, ?_⟩
  · simp only [Char.isUpper, UInt32.le_iff_toNat_le, ge_iff_le, decide_eq_false_iff_not]
    change ¬(65 ≤ c.toNat ∧ c.toNat ≤ 90)
    omega
  · simp [isWhitespace]
    omega

/-- A digit, and then plain characters. -/
theorem formatAmount_plain (msat : UInt64) :
    ∃ first rest, (formatAmount msat).toList = first :: rest ∧ first.isDigit = true ∧ ∀ c ∈ first :: rest, IsPlain c := by
  obtain ⟨n, mult, known, written, -⟩ := formatAmount_spec msat
  have digit : ∀ c ∈ Nat.toDigits 10 n.toNat, c.isDigit = true := fun c member =>
    Nat.isDigit_of_mem_toDigits (by decide) (by decide) member
  have letter : mult.isLower = true := by rcases known with rfl | rfl | rfl | rfl <;> rfl
  have text : (formatAmount msat).toList = Nat.toDigits 10 n.toNat ++ [mult] := by
    rw [written, String.toList_append, Nat.toList_repr, String.singleton, String.toList_push, String.toList_empty,
      List.nil_append]
  have plain : ∀ c ∈ Nat.toDigits 10 n.toNat ++ [mult], IsPlain c := by
    intro c member
    rcases List.mem_append.mp member with front | last
    · exact .inr (digit c front)
    · rw [List.mem_singleton.mp last]
      exact .inl letter
  cases row : Nat.toDigits 10 n.toNat with
  | nil => exact absurd row Nat.toDigits_ne_nil
  | cons first rest =>
    rw [row] at text plain digit
    exact ⟨first, rest ++ [mult], text, digit first List.mem_cons_self, plain⟩

theorem Invoice.hrp_plain {inv : Invoice} (letters : ∀ c ∈ inv.currency.toList, c.isLower = true) :
    ∀ c ∈ inv.hrp.toList, IsPlain c := by
  have text : inv.hrp.toList = 'l' :: 'n' :: (inv.currency.toList ++ ((inv.amountMsat.map formatAmount).getD "").toList) := by
    simp [Invoice.hrp]
  intro c member
  rw [text] at member
  rcases List.mem_cons.mp member with rfl | member
  · exact .inl rfl
  rcases List.mem_cons.mp member with rfl | member
  · exact .inl rfl
  rcases List.mem_append.mp member with front | back
  · exact .inl (letters c front)
  · cases amount : inv.amountMsat with
    | none => simp [amount] at back
    | some msat =>
      obtain ⟨first, rest, written, -, plain⟩ := formatAmount_plain msat
      rw [amount, Option.map_some, Option.getD_some, written] at back
      exact plain c back

theorem writeField_small {kind : UInt8} {data : List UInt8} (short : data.length < 2 ^ 10) (known : kind < 32)
    (small : ∀ w ∈ data, w < 32) : ∀ w ∈ writeField kind data, w < 32 := by
  have high : UInt8.ofNat (data.length >>> 5) < 32 := by
    rw [UInt8.lt_iff_toNat_lt, UInt8.toNat_ofNat', Nat.shiftRight_eq_div_pow]
    change _ < 32
    omega
  have low : UInt8.ofNat (data.length &&& 31) < 32 := by
    rw [UInt8.lt_iff_toNat_lt, word_toNat]
    exact Nat.mod_lt _ (by decide)
  exact List.forall_mem_cons.mpr ⟨known, List.forall_mem_cons.mpr ⟨high, List.forall_mem_cons.mpr ⟨low, small⟩⟩⟩

/-- The words of a description are few enough for their length. -/
theorem length_description {text : String} (short : (bytes text).length ≤ 639) :
    (toWords (bytes text)).length < 2 ^ 10 := by
  rw [length_toWords]
  omega

theorem length_expiry (x : UInt64) : (numberWords x []).length < 2 ^ 10 :=
  (length_numberWords (n := 13) (x.toNat_lt.trans (by decide)) []).trans_lt (by decide)

/-- What there is room for in the text of an invoice. -/
structure Invoice.Fits (inv : Invoice) : Prop where
  currency : inv.currency ≠ ""
  letters : ∀ c ∈ inv.currency.toList, c.isLower = true
  time : inv.timestamp.toNat < 2 ^ 35
  amount : ∀ msat, inv.amountMsat = some msat → 0 < msat.toNat ∧ (msat.toNat * 10 < 2 ^ 64 ∨ msat % 100 = 0)
  short : ∀ text, inv.description = some text → (bytes text).length ≤ 639

theorem Invoice.words_small {inv : Invoice} (short : ∀ text, inv.description = some text → (bytes text).length ≤ 639) :
    ∀ w ∈ inv.words, w < 32 := by
  have hash (kind : UInt8) (known : kind < 32) (h : Option Hash) :
      ∀ w ∈ h.elim [] fun h => writeField kind (toWords h.val), w < 32 := by
    cases h with
    | none => exact fun w none_ => absurd none_ List.not_mem_nil
    | some h => exact writeField_small (by rw [length_hashWords]; decide) known (toWords_holds h.val).1
  have text : ∀ w ∈ inv.description.elim [] fun text => writeField 13 (toWords (bytes text)), w < 32 := by
    cases held : inv.description with
    | none => exact fun w none_ => absurd none_ List.not_mem_nil
    | some text => exact writeField_small (length_description (short text held)) (by decide) (toWords_holds _).1
  have last : ∀ w ∈ if inv.expiry ≠ 3600 then writeField 6 (numberWords inv.expiry []) else [], w < 32 := by
    split
    · exact writeField_small (length_expiry _) (by decide) (numberWords_small _ fun w none_ => absurd none_ List.not_mem_nil)
    · exact fun w none_ => absurd none_ List.not_mem_nil
  intro w member
  simp only [Invoice.words, List.mem_append, List.mem_map] at member
  rcases member with (((⟨k, -, rfl⟩ | first) | second) | third) | fourth
  · exact lowWord_small _
  · exact hash 1 (by decide) _ w first
  · exact hash 23 (by decide) _ w second
  · exact text w third
  · exact last w fourth

/-- The fields are read back, one after the other. -/
theorem Invoice.readFields_words (inv : Invoice)
    (short : ∀ text, inv.description = some text → (bytes text).length ≤ 639) :
    readFields { inv with paymentHash := none, descriptionHash := none, description := none, expiry := 3600 }
      (inv.words.drop 7) = some inv := by
  have hash (kind : UInt8) (h : Option Hash) (inv : Invoice) (rest : List UInt8) :
      readFields inv ((h.elim [] fun h => writeField kind (toWords h.val)) ++ rest) =
        readFields (h.elim inv fun h => inv.field kind (toWords h.val)) rest := by
    cases h with
    | none => rfl
    | some h => exact readFields_writeField inv kind (by rw [length_hashWords]; decide) rest
  have first : inv.words.drop 7 = (inv.paymentHash.elim [] fun h => writeField 1 (toWords h.val)) ++
      ((inv.descriptionHash.elim [] fun h => writeField 23 (toWords h.val)) ++
        ((inv.description.elim [] fun text => writeField 13 (toWords (bytes text))) ++
          if inv.expiry ≠ 3600 then writeField 6 (numberWords inv.expiry []) else [])) := by
    simp only [Invoice.words, List.append_assoc]
    exact List.drop_left' (by simp)
  rw [first, hash, hash]
  rcases inv with ⟨currency, amountMsat, timestamp, paymentHash, descriptionHash, description, expiry⟩
  have last (inv : Invoice) (held : inv.expiry = 3600) :
      readFields inv (if expiry ≠ 3600 then writeField 6 (numberWords expiry []) else []) = some { inv with expiry } := by
    by_cases standard : expiry = 3600
    · rw [if_neg (not_not.mpr standard), standard, ← held, readFields]
    · have read := readFields_writeField inv 6 (length_expiry expiry) []
      rw [if_pos standard, ← List.append_nil (writeField _ _), read, field_expiry, readFields]
  have text (inv : Invoice) (held : inv.expiry = 3600) (none_ : inv.description = none) :
      readFields inv ((description.elim [] fun text => writeField 13 (toWords (bytes text))) ++
        if expiry ≠ 3600 then writeField 6 (numberWords expiry []) else []) = some { inv with description, expiry } := by
    cases description with
    | none => rw [Option.elim_none, List.nil_append, last inv held, ← none_]
    | some text =>
      rw [Option.elim_some, readFields_writeField inv 13 (length_description (short text rfl)), field_description]
      exact last { inv with description := some text } held
  cases paymentHash <;> cases descriptionHash <;>
    simp only [Option.elim_none, Option.elim_some, field_paymentHash, field_descriptionHash, text]

/-- What was written is read back. -/
theorem Invoice.decode_written {inv : Invoice} (fits : inv.Fits) : Invoice.decode inv.encodeUnsigned = some inv := by
  obtain ⟨currency, letters, time, amount, short⟩ := fits
  have plain := hrp_plain letters
  have smallWords : ∀ w ∈ inv.words ++ List.replicate signatureWords 0, w < 32 := by
    intro w member
    rcases List.mem_append.mp member with front | back
    · exact words_small short w front
    · rw [List.eq_of_mem_replicate back]
      decide
  have some_ : inv.hrp ≠ "" := by
    intro none_
    have := congrArg String.toList none_
    simp [Invoice.hrp] at this
  have read : Bech32.decode inv.encodeUnsigned = some (inv.hrp, inv.words ++ List.replicate signatureWords 0) :=
    Bech32.decode_encode some_ (fun c member => (plain c member).readable.1) smallWords
  have black := Bech32.encode_plain smallWords fun c member => (plain c member).readable.2
  have same : lower (trim inv.encodeUnsigned) = inv.encodeUnsigned := by
    rw [encodeUnsigned, trim_of_plain fun c member => (black c member).2, lower_of_plain fun c member => (black c member).1]
  have noScheme : stripStart "lightning:" inv.encodeUnsigned = none := by
    simp [stripStart, encodeUnsigned, Bech32.encode, hrp]
  let amountText := (inv.amountMsat.map formatAmount).getD ""
  have begins : stripStart "ln" inv.hrp = some (inv.currency ++ amountText) := by
    rw [hrp, String.append_assoc, stripStart_append]
  have letter : ∀ c ∈ inv.currency.toList, (!c.isDigit) = true := by
    intro c member
    have lower := letters c member
    simp only [Char.isLower, UInt32.le_iff_toNat_le, ge_iff_le, Bool.and_eq_true, decide_eq_true_eq] at lower
    simp only [Char.isDigit, UInt32.le_iff_toNat_le, ge_iff_le, Bool.not_eq_true']
    change 97 ≤ c.toNat ∧ c.toNat ≤ 122 at lower
    change (decide _ && decide (c.toNat ≤ 57)) = false
    simp
    omega
  have after : amountText.toList.takeWhile (fun c => !c.isDigit) = [] ∧
      amountText.toList.dropWhile (fun c => !c.isDigit) = amountText.toList := by
    cases held : inv.amountMsat with
    | none => simp [amountText, held]
    | some msat =>
      obtain ⟨first, rest, written, digit, -⟩ := formatAmount_plain msat
      simp [amountText, held, written, digit]
  have front : (inv.currency ++ amountText).toList.takeWhile (fun c => !c.isDigit) = inv.currency.toList := by
    rw [String.toList_append, List.takeWhile_append_of_pos letter, after.1, List.append_nil]
  have back : (inv.currency ++ amountText).toList.dropWhile (fun c => !c.isDigit) = amountText.toList := by
    rw [String.toList_append, List.dropWhile_append_of_pos letter, after.2]
  have named : inv.currency.toList.isEmpty = false := by simpa using currency
  have count : ¬(inv.words ++ List.replicate signatureWords 0).length < 7 + signatureWords := by
    simp [Invoice.words]
    omega
  have data : (inv.words ++ List.replicate signatureWords 0).take
      ((inv.words ++ List.replicate signatureWords 0).length - signatureWords) = inv.words := by
    simp
  have timed : readNumber (inv.words.take 7) = inv.timestamp := by
    have first : inv.words.take 7 = (List.range 7).reverse.map fun k => ((inv.timestamp >>> .ofNat (5 * k)) &&& 31).toUInt8 := by
      simp only [Invoice.words, List.append_assoc]
      exact List.take_left' (by simp)
    rw [first, readNumber_timestamp time]
  have fields := inv.readFields_words short
  unfold Invoice.decode
  simp only [same, noScheme, Option.getD_none, read, Option.bind_eq_bind, Option.bind_some, begins, front, back, named,
    count, data, timed]
  cases held : inv.amountMsat with
  | none =>
    rw [held] at fields
    simp [amountText, held, fields]
  | some msat =>
    obtain ⟨first, rest, written, -, -⟩ := formatAmount_plain msat
    have full : formatAmount msat ≠ "" := fun none_ => by simp [none_] at written
    obtain ⟨some_, fits⟩ := amount msat held
    have parsed := parseAmount_formatAmount some_ fits
    rw [held] at fields
    simp [amountText, held, fields, full, parsed]

theorem Invoice.decode_encodeUnsigned (inv : Invoice) (currency : inv.currency ≠ "")
    (letters : ∀ c ∈ inv.currency.toList, c.isLower = true) (time : inv.timestamp.toNat < 2 ^ 35)
    (amount : ∀ msat, inv.amountMsat = some msat → 1 ≤ msat.toNat ∧ msat.toNat ≤ (2 ^ 64 - 1) / 10)
    (short : ∀ text, inv.description = some text → (bytes text).length ≤ 639) :
    Invoice.decode inv.encodeUnsigned = some inv := by
  refine decode_written { currency, letters, time, short, amount := fun msat held => ?_ }
  obtain ⟨least, most⟩ := amount msat held
  exact ⟨least, .inl (by omega)⟩

/-- A satoshi and a thousandth of one, to be paid within a day. -/
def sampleInvoice : Invoice where
  currency := "bcrt"
  amountMsat := some 1001
  timestamp := 1700000000
  paymentHash := none
  descriptionHash := some ⟨List.replicate 32 255, List.length_replicate⟩
  description := some "á"
  expiry := 86400

theorem Invoice.decode_encodeUnsigned_sample : Invoice.decode sampleInvoice.encodeUnsigned = some sampleInvoice := by
  refine Invoice.decode_encodeUnsigned sampleInvoice (by decide) (by simp [sampleInvoice]) (by decide) ?_ ?_
  · intro msat same
    cases same
    decide
  · intro text same
    cases same
    decide +kernel

end HitEnter.Wire
