import HitEnter.Lib.Slices
import HitEnter.Wire.Invoice

/-! Reading an invoice as it is read: by the places in its text and in its words. No place that it
comes by is out of range, and it reads what is there. -/

namespace HitEnter.Wire

open Lib.Slices Lib.Checks Lib.Ascii Lib.Decimal Lib.Hex Lib.Text Lib.Rows

/-- The place of the last `c` in a text, in bytes. -/
def rfind (c : Char) (text : String) : Option ℕ :=
  match text.toList.reverse.dropWhile (· ≠ c) with
  | [] => none
  | _ :: front => some (bytes (.ofList front.reverse)).length

/-- The place of the first character that is so, in bytes. -/
def find (is : Char → Bool) (text : String) : Option ℕ :=
  if text.toList.any is then some (bytes (.ofList (text.toList.takeWhile fun c => !is c))).length else none

/-- The readable part and the words of a text, by their places. -/
def Bech32.decodeAt (text : String) : Except Stop (String × List UInt8) := do
  let pos ← orRefused (rfind '1' text)
  let hrp ← sliceText text 0 pos
  let data ← sliceText text (pos + 1) (bytes text).length
  refuseIf (hrp.isEmpty || (bytes data).length < 6 || !((bytes hrp).all fun b => 33 ≤ b && b ≤ 126)) .refused
  let words ← orRefused ((bytes data).mapM wordOf)
  refuseIf (polymod (hrpExpand hrp ++ words) ≠ 1#32) .refused
  let stop ← less words.length 6
  let words ← slice words 0 stop
  return (hrp, words)

def parseAmountAt (text : String) : Except Stop UInt64 := do
  let mult := text.toList.getLast?.filter fun c => c = 'm' || c = 'u' || c = 'n' || c = 'p'
  let digits ← (if mult.isSome then do
      let stop ← less (bytes text).length 1
      sliceText text 0 stop
    else pure text : Except Stop String)
  refuseIf (digits.isEmpty || digits.toList.head? = some '0' || !(digits.toList.all Char.isDigit)) .refused
  let n ← orRefused (parseU64 digits)
  orRefused (scale mult n)

/-- The fields from a place on. -/
def readFieldsAt (data : List UInt8) (inv : Invoice) (i : ℕ) : Except Stop Invoice :=
  if i < data.length then
    if data.length < i + 3 then .error .refused
    else do
      let kind ← item data i
      let high ← item data (i + 1)
      let low ← item data (i + 2)
      let len := high.toNat <<< 5 ||| low.toNat
      let words ← orRefused (sliceIfThere data (i + 3) (i + 3 + len))
      readFieldsAt data (inv.field kind words) (i + 3 + len)
  else .ok inv
termination_by data.length - i

def Invoice.decodeAt (text : String) : Except Stop Invoice := do
  let plain := lower (trim text)
  let (hrp, words) ← Bech32.decodeAt ((stripStart "lightning:" plain).getD plain)
  let rest ← orRefused (stripStart "ln" hrp)
  let split := (find Char.isDigit rest).getD (bytes rest).length
  let currency ← sliceText rest 0 split
  let amount ← sliceText rest split (bytes rest).length
  refuseIf currency.isEmpty .refused
  let amountMsat ← (if amount.isEmpty then pure none else some <$> parseAmountAt amount : Except Stop (Option UInt64))
  refuseIf (words.length < 7 + signatureWords) .refused
  let stop ← less words.length signatureWords
  let data ← slice words 0 stop
  let time ← slice data 0 7
  readFieldsAt data
    { currency, amountMsat, timestamp := readNumber time, paymentHash := none, descriptionHash := none, description := none
      expiry := 3600 } 7

/-! ### Every place is in range -/

theorem find_front (is : Char → Bool) (text : String) : (find is text).getD (bytes text).length =
    (bytes (.ofList (text.toList.takeWhile fun c => !is c))).length := by
  unfold find
  split
  · rfl
  · rename_i none_
    have all : text.toList.takeWhile (fun c => !is c) = text.toList := by
      rw [List.takeWhile_eq_self_iff]
      intro c member
      simpa using fun here : is c = true => none_ (List.any_eq_true.mpr ⟨c, member, here⟩)
    rw [all, String.ofList_toList, Option.getD_none]

/-- A field from its place on: its kind, its length and its words. -/
theorem readFieldsAt_field {front rest : List UInt8} {inv : Invoice} {kind high low : UInt8} :
    readFieldsAt (front ++ kind :: high :: low :: rest) inv front.length =
      if rest.length < (high.toNat <<< 5 ||| low.toNat) then .error .refused
      else readFieldsAt (front ++ kind :: high :: low :: rest)
        (inv.field kind (rest.take (high.toNat <<< 5 ||| low.toNat))) (front.length + 3 + (high.toNat <<< 5 ||| low.toNat)) := by
  generalize same : high.toNat <<< 5 ||| low.toNat = len
  have inside : front.length < (front ++ kind :: high :: low :: rest).length := by simp
  have room : ¬ (front ++ kind :: high :: low :: rest).length < front.length + 3 := by
    rw [List.length_append, List.length_cons, List.length_cons, List.length_cons]
    omega
  have first : item (front ++ kind :: high :: low :: rest) front.length = .ok kind := item_append front _ 0
  have second : item (front ++ kind :: high :: low :: rest) (front.length + 1) = .ok high := item_append front _ 1
  have third : item (front ++ kind :: high :: low :: rest) (front.length + 2) = .ok low := item_append front _ 2
  have words : sliceIfThere (front ++ kind :: high :: low :: rest) (front.length + 3) (front.length + 3 + len) =
      if rest.length < len then none else some (rest.take len) := by
    rw [Nat.add_assoc, sliceIfThere_append, sliceIfThere, List.length_cons, List.length_cons, List.length_cons]
    by_cases short : rest.length < len
    · rw [if_pos short, if_neg (by omega)]
    · rw [if_neg short, if_pos (by omega), Nat.add_comm 3 len]
      rfl
  rw [readFieldsAt, if_pos inside, if_neg room, first, second, third]
  change (orRefused (sliceIfThere _ _ (front.length + 3 + (high.toNat <<< 5 ||| low.toNat))) >>= _) = _
  rw [same, words]
  split
  · rfl
  · rfl

theorem readFieldsAt_eq (data front : List UInt8) (inv : Invoice) (rest : List UInt8) (split : data = front ++ rest) :
    readFieldsAt data inv front.length = orRefused (readFields inv rest) := by
  induction inv, rest using readFields.induct generalizing front with
  | case1 inv =>
    have none_ : ¬ front.length < data.length := by simp [split]
    rw [readFieldsAt, if_neg none_, readFields]
    rfl
  | case2 inv kind high low rest len short =>
    rw [split, readFieldsAt_field, if_pos short, readFields, if_pos short]
    rfl
  | case3 inv kind high low rest len fits ih =>
    have longer : (front ++ kind :: high :: low :: rest.take len).length = front.length + 3 + len := by
      simp only [List.length_append, List.length_cons, List.length_take]
      omega
    have again : data = (front ++ kind :: high :: low :: rest.take len) ++ rest.drop len := by simp [split]
    have step := ih _ again
    rw [longer] at step
    rw [split, readFieldsAt_field, if_neg fits, readFields, if_neg fits, ← split]
    exact step
  | case4 inv rest other more =>
    have few : ¬ 3 ≤ rest.length := by
      intro long
      obtain _ | ⟨kind, _ | ⟨high, _ | ⟨low, rest⟩⟩⟩ := rest
      · exact other rfl
      · simp at long
      · simp at long
      · exact more kind high low rest rfl
    have some_ : 0 < rest.length := List.length_pos_iff.mpr other
    have length : data.length = front.length + rest.length := by rw [split, List.length_append]
    rw [readFieldsAt, if_pos (by omega), if_pos (by omega), readFields]
    · rfl
    · exact other
    · exact more

/-- The last of a character is where none comes after it. -/
theorem rfind_eq {c : Char} {front back : List Char} (last : c ∉ back) :
    rfind c (.ofList (front ++ c :: back)) = some (bytes (.ofList front)).length := by
  have plain : ∀ d ∈ back.reverse, (decide (d ≠ c)) = true := by
    intro d member
    exact decide_eq_true fun same => last (same ▸ List.mem_reverse.mp member)
  have reversed : (front ++ c :: back).reverse = back.reverse ++ c :: front.reverse := by simp
  unfold rfind
  rw [String.toList_ofList, reversed, List.dropWhile_append_of_pos plain]
  simp

/-- The text is cut before the last `1` and after it. -/
theorem Bech32.atLastOne_places (text : String) :
    (Bech32.atLastOne text = none ∧ rfind '1' text = none) ∨
      ∃ front back pos, Bech32.atLastOne text = some (front, back) ∧ rfind '1' text = some pos ∧
        sliceText text 0 pos = .ok front ∧ sliceText text (pos + 1) (bytes text).length = .ok back := by
  cases split : Bech32.atLastOne text with
  | none =>
    refine .inl ⟨rfl, ?_⟩
    unfold Bech32.atLastOne at split
    unfold rfind
    cases rest : text.toList.reverse.dropWhile fun c => decide (c ≠ '1') with
    | nil => rfl
    | cons c front =>
      rw [rest] at split
      cases split
  | some parts =>
    obtain ⟨front, back⟩ := parts
    obtain ⟨whole, last⟩ := Bech32.atLastOne_some split
    have row : text = front ++ "1" ++ back := by
      rw [← String.toList_inj, whole]
      simp
    have found : rfind '1' text = some (bytes front).length := by
      have place := @rfind_eq '1' front.toList back.toList last
      rwa [← whole, String.ofList_toList, String.ofList_toList] at place
    have one : (bytes (front ++ "1")).length = (bytes front).length + 1 := by
      rw [bytes_append, List.length_append]
      rfl
    refine .inr ⟨front, back, (bytes front).length, rfl, found, ?_, ?_⟩
    · rw [row, String.append_assoc]
      exact sliceText_front front ("1" ++ back)
    · have cut := sliceText_back (front ++ "1") back
      rwa [one, ← row] at cut

theorem Bech32.decodeAt_eq (text : String) : Bech32.decodeAt text = orRefused (Bech32.decode text) := by
  rcases Bech32.atLastOne_places text with ⟨none_, absent⟩ | ⟨front, back, pos, parts, found, hrp, data⟩
  · rw [Bech32.decodeAt, Bech32.decode, none_, absent]
    rfl
  have start : Bech32.decodeAt text = (do
      refuseIf (front.isEmpty || (bytes back).length < 6 || !((bytes front).all fun b => 33 ≤ b && b ≤ 126)) .refused
      let words ← orRefused ((bytes back).mapM wordOf)
      refuseIf (polymod (hrpExpand front ++ words) ≠ 1#32) .refused
      let stop ← less words.length 6
      let words ← slice words 0 stop
      return (front, words)) := by
    rw [Bech32.decodeAt, found]
    change (sliceText text 0 pos >>= _) = _
    rw [hrp]
    change (sliceText text (pos + 1) (bytes text).length >>= _) = _
    rw [data]
    rfl
  rw [start]
  cases read : (bytes back).mapM wordOf with
  | none =>
    have refused : Bech32.decode text = none := by
      rw [Bech32.decode, parts]
      simp [read]
    rw [refused]
    cases front.isEmpty || decide ((bytes back).length < 6) || !(bytes front).all fun b => decide (33 ≤ b) && decide (b ≤ 126) <;> rfl
  | some words =>
    rw [Bech32.decode_eq parts read]
    cases bad : front.isEmpty || decide ((bytes back).length < 6) || !(bytes front).all fun b => decide (33 ≤ b) && decide (b ≤ 126) with
    | true => rfl
    | false =>
      have long : 6 ≤ (bytes back).length := by
        simp only [Bool.or_eq_false_iff, decide_eq_false_iff_not, not_lt] at bad
        exact bad.1.2
      have length : words.length = (bytes back).length := (mapM_eq_some_iff.mp read).length_eq.symm
      have stop : less words.length 6 = .ok (words.length - 6) := less_eq (by omega)
      have cut : slice words 0 (words.length - 6) = .ok (words.take (words.length - 6)) :=
        slice_eq (Nat.zero_le _) (Nat.sub_le _ _)
      simp only [refuseIf_false_bind, Bool.false_eq_true, if_false]
      change (refuseIf _ Stop.refused >>= fun _ => less words.length 6 >>= _) = _
      rw [stop]
      change (refuseIf _ Stop.refused >>= fun _ => slice words 0 (words.length - 6) >>= _) = _
      rw [cut]
      by_cases wrong : polymod (hrpExpand front ++ words) ≠ 1#32
      · rw [decide_eq_true wrong, if_pos wrong]
        rfl
      · rw [decide_eq_false wrong, if_neg wrong]
        rfl

theorem isEmpty_ofList (row : List Char) : (String.ofList row).isEmpty = row.isEmpty := by
  rw [Bool.eq_iff_iff, String.isEmpty_iff, List.isEmpty_iff, ← String.toList_inj, String.toList_ofList]
  rfl

/-- A multiplier is one byte. -/
theorem multiplier_places {text : String} {c : Char} (last : text.toList.getLast? = some c) (ascii : c.toNat < 128) :
    (do let stop ← less (bytes text).length 1
        sliceText text 0 stop) = .ok (.ofList text.toList.dropLast) := by
  have row : text = .ofList text.toList.dropLast ++ .singleton c := by
    obtain ⟨front, same⟩ := List.getLast?_eq_some_iff.mp last
    rw [← String.toList_inj, String.toList_append, String.toList_ofList, same]
    simp
  have one : (bytes text).length = (bytes (.ofList text.toList.dropLast)).length + 1 := by
    have single : bytes (.singleton c) = [UInt8.ofNat c.toNat] := by
      have small : IsAscii (.singleton c) := by
        intro d member
        obtain rfl : d = c := by simpa using member
        exact ascii
      rw [bytes_of_ascii small]
      simp
    conv_lhs => rw [row]
    rw [bytes_append, List.length_append, single]
    rfl
  rw [less_eq (by omega), one]
  have cut := sliceText_front (.ofList text.toList.dropLast) (.singleton c)
  rw [← row] at cut
  exact cut

theorem parseAmountAt_eq (text : String) : parseAmountAt text = orRefused (parseAmount text) := by
  let mult := text.toList.getLast?.filter fun c => c = 'm' || c = 'u' || c = 'n' || c = 'p'
  let digits := if mult.isSome then text.toList.dropLast else text.toList
  have found : (if mult.isSome then do
      let stop ← less (bytes text).length 1
      sliceText text 0 stop
    else pure text) = .ok (String.ofList digits) := by
    cases named : mult with
    | none => simp [digits, named, pure, Except.pure]
    | some c =>
      obtain ⟨last, known⟩ := Option.filter_eq_some_iff.mp named
      have ascii : c.toNat < 128 := by
        simp only [Bool.or_eq_true, decide_eq_true_eq] at known
        rcases known with ((rfl | rfl) | rfl) | rfl <;> decide
      simp only [digits, named, Option.isSome_some, if_true]
      exact multiplier_places last ascii
  have read (row : List Char) : (do
      refuseIf ((String.ofList row).isEmpty || (String.ofList row).toList.head? = some '0' ||
        !((String.ofList row).toList.all Char.isDigit)) .refused
      let n ← orRefused (parseU64 (.ofList row))
      orRefused (scale mult n)) =
        orRefused (if row.isEmpty || row.head? = some '0' || !(row.all Char.isDigit) then none
          else (parseU64 (.ofList row)).bind (scale mult)) := by
    rw [isEmpty_ofList, String.toList_ofList]
    cases row.isEmpty || decide (row.head? = some '0') || !(row.all Char.isDigit) with
    | true => rfl
    | false =>
      change (orRefused (parseU64 (.ofList row)) >>= _) = _
      cases parseU64 (.ofList row) <;> rfl
  have plain : parseAmount text = if digits.isEmpty || digits.head? = some '0' || !(digits.all Char.isDigit) then none
      else (parseU64 (.ofList digits)).bind (scale mult) := rfl
  rw [plain, ← read digits]
  have bound : parseAmountAt text = ((if mult.isSome then do
      let stop ← less (bytes text).length 1
      sliceText text 0 stop
    else pure text) >>= fun digits : String => do
      refuseIf (digits.isEmpty || digits.toList.head? = some '0' || !(digits.toList.all Char.isDigit)) .refused
      let n ← orRefused (parseU64 digits)
      orRefused (scale mult n)) := by
    rfl
  rw [bound, found]
  rfl

/-- A text is cut at its first digit. -/
theorem digit_places (text : String) :
    sliceText text 0 ((find Char.isDigit text).getD (bytes text).length) =
      .ok (.ofList (text.toList.takeWhile fun c => !c.isDigit)) ∧
    sliceText text ((find Char.isDigit text).getD (bytes text).length) (bytes text).length =
      .ok (.ofList (text.toList.dropWhile fun c => !c.isDigit)) := by
  rw [find_front]
  have row : text = .ofList (text.toList.takeWhile fun c => !c.isDigit) ++ .ofList (text.toList.dropWhile fun c => !c.isDigit) := by
    rw [← String.ofList_append, List.takeWhile_append_dropWhile, String.ofList_toList]
  have front := sliceText_front (.ofList (text.toList.takeWhile fun c => !c.isDigit)) (.ofList (text.toList.dropWhile fun c => !c.isDigit))
  have back := sliceText_back (.ofList (text.toList.takeWhile fun c => !c.isDigit)) (.ofList (text.toList.dropWhile fun c => !c.isDigit))
  rw [← row] at front back
  exact ⟨front, back⟩

/-- The words of an invoice, once its readable part is read. -/
theorem Invoice.words_places (words : List UInt8) (made : UInt64 → Invoice) :
    (do refuseIf (words.length < 7 + signatureWords) .refused
        let stop ← less words.length signatureWords
        let data ← slice words 0 stop
        let time ← slice data 0 7
        readFieldsAt data (made (readNumber time)) 7) =
      orRefused (if words.length < 7 + signatureWords then none
        else readFields (made (readNumber ((words.take (words.length - signatureWords)).take 7)))
          ((words.take (words.length - signatureWords)).drop 7)) := by
  by_cases short : words.length < 7 + signatureWords
  · rw [decide_eq_true short, if_pos short]
    rfl
  rw [decide_eq_false short, if_neg short, refuseIf_false_bind]
  have room : (words.take (words.length - signatureWords)).length = words.length - signatureWords := by
    rw [List.length_take]
    omega
  have stop : less words.length signatureWords = .ok (words.length - signatureWords) := less_eq (by omega)
  have data : slice words 0 (words.length - signatureWords) = .ok (words.take (words.length - signatureWords)) :=
    slice_eq (Nat.zero_le _) (Nat.sub_le _ _)
  have time : slice (words.take (words.length - signatureWords)) 0 7 =
      .ok ((words.take (words.length - signatureWords)).take 7) := slice_eq (Nat.zero_le _) (by omega)
  have seven : ((words.take (words.length - signatureWords)).take 7).length = 7 := by
    rw [List.length_take]
    omega
  rw [stop]
  change (slice words 0 (words.length - signatureWords) >>= _) = _
  rw [data]
  change (slice (words.take (words.length - signatureWords)) 0 7 >>= _) = _
  rw [time]
  have fields := readFieldsAt_eq (words.take (words.length - signatureWords)) ((words.take (words.length - signatureWords)).take 7)
    (made (readNumber ((words.take (words.length - signatureWords)).take 7))) ((words.take (words.length - signatureWords)).drop 7)
    (List.take_append_drop _ _).symm
  rw [seven] at fields
  exact fields

theorem Invoice.decodeAt_eq (text : String) : Invoice.decodeAt text = orRefused (Invoice.decode text) := by
  unfold Invoice.decodeAt Invoice.decode
  dsimp only
  rw [Bech32.decodeAt_eq]
  cases Bech32.decode ((stripStart "lightning:" (lower (trim text))).getD (lower (trim text))) with
  | none => rfl
  | some parts =>
    obtain ⟨hrp, words⟩ := parts
    change (orRefused (stripStart "ln" hrp) >>= _) = _
    cases named : stripStart "ln" hrp with
    | none => simp [named]; rfl
    | some rest =>
      obtain ⟨currency, amount⟩ := digit_places rest
      change (sliceText rest 0 ((find Char.isDigit rest).getD (bytes rest).length) >>= _) = _
      rw [currency]
      change (sliceText rest ((find Char.isDigit rest).getD (bytes rest).length) (bytes rest).length >>= _) = _
      rw [amount]
      change (refuseIf (String.ofList _).isEmpty Stop.refused >>= fun _ =>
        ((if (String.ofList _).isEmpty then pure none else some <$> parseAmountAt (.ofList _) : Except Stop (Option UInt64)) >>= _)) = _
      rw [isEmpty_ofList, isEmpty_ofList, parseAmountAt_eq]
      simp only [Option.bind_eq_bind, Option.bind_some, Option.bind_none, named]
      cases (rest.toList.takeWhile fun c => !c.isDigit).isEmpty with
      | true => rfl
      | false =>
        let made (amountMsat : Option UInt64) (timestamp : UInt64) : Invoice :=
          { currency := .ofList (rest.toList.takeWhile fun c => !c.isDigit), amountMsat, timestamp, paymentHash := none
            descriptionHash := none, description := none, expiry := 3600 }
        rw [refuseIf_false_bind, if_neg Bool.false_ne_true]
        cases (rest.toList.dropWhile fun c => !c.isDigit).isEmpty with
        | true => exact Invoice.words_places words (made none)
        | false =>
          rw [if_neg Bool.false_ne_true, if_neg Bool.false_ne_true]
          cases parseAmount (.ofList (rest.toList.dropWhile fun c => !c.isDigit)) with
          | none => rfl
          | some msat => exact Invoice.words_places words (made (some msat))

/-- Any text whatever is read or refused: no place that is come by is out of range. -/
theorem Invoice.decodeAt_safe (text : String) :
    (∃ inv, Invoice.decodeAt text = .ok inv) ∨ Invoice.decodeAt text = .error .refused := by
  rw [Invoice.decodeAt_eq]
  cases Invoice.decode text with
  | none => exact .inr rfl
  | some inv => exact .inl ⟨inv, rfl⟩

end HitEnter.Wire
