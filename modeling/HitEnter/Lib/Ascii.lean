import HitEnter.Lib.Hex
import HitEnter.Lib.Text

/-! Texts and their bytes; and texts of ASCII characters, of which each is one byte and
only `a` to `z` have an upper case. -/

namespace HitEnter.Lib.Ascii

open Hex Text

/-- The text with those bytes, where they are UTF-8. -/
def ofBytes (row : List UInt8) : Option String := String.fromUTF8? ⟨row.toArray⟩

theorem ofBytes_bytes (text : String) : ofBytes (bytes text) = some text := by
  have same : (⟨(bytes text).toArray⟩ : ByteArray) = text.toByteArray := by simp [bytes]
  rw [ofBytes, same, String.fromUTF8?]
  exact dif_pos text.isValidUTF8

def IsAscii (text : String) : Prop := ∀ c ∈ text.toList, c.toNat < 128

@[simp] theorem bytes_append (a b : String) : bytes (a ++ b) = bytes a ++ bytes b := by simp [bytes]

theorem encode_ascii {c : Char} (ascii : c.toNat < 128) : String.utf8EncodeChar c = [UInt8.ofNat c.toNat] := by
  unfold String.utf8EncodeChar
  exact if_pos (Nat.le_of_lt_succ ascii)

theorem bytes_of_ascii {text : String} (ascii : IsAscii text) :
    bytes text = text.toList.map fun c => UInt8.ofNat c.toNat := by
  have row (cs : List Char) (small : ∀ c ∈ cs, c.toNat < 128) :
      cs.flatMap String.utf8EncodeChar = cs.map fun c => UInt8.ofNat c.toNat := by
    induction cs with
    | nil => rfl
    | cons c rest ih =>
      rw [List.flatMap_cons, encode_ascii (small c List.mem_cons_self),
        ih fun d member => small d (List.mem_cons_of_mem c member)]
      rfl
  rw [← row text.toList ascii, ← bytes_ofList, String.ofList_toList]

/-- A character that is not one byte has only bytes past the ASCII ones. -/
theorem ascii_of_bytes {c : Char} (small : ∀ b ∈ String.utf8EncodeChar c, b < 128) : c.toNat < 128 := by
  by_contra large
  have past : ¬ c.val.toNat ≤ 127 := fun few => large (Nat.lt_succ_of_le few)
  have first (n lead : ℕ) (high : 192 ≤ lead) (fits : n + lead < 256) (below : UInt8.ofNat (n + lead) < 128) : False := by
    rw [UInt8.lt_iff_toNat_lt, UInt8.toNat_ofNat', Nat.mod_eq_of_lt fits] at below
    exact absurd (below.trans_le (by decide : (128 : UInt8).toNat ≤ 192)) (by omega)
  unfold String.utf8EncodeChar at small
  rw [if_neg past] at small
  split at small
  · exact first _ _ (by decide) (by omega) (small _ List.mem_cons_self)
  · split at small
    · exact first _ _ (by decide) (by omega) (small _ List.mem_cons_self)
    · exact first _ _ (by decide) (by omega) (small _ List.mem_cons_self)

def lower (text : String) : String := .ofList (text.toList.map Char.toLower)

def upper (text : String) : String := .ofList (text.toList.map Char.toUpper)

/-! ### Cases -/

theorem lower_of_plain {text : String} (plain : ∀ c ∈ text.toList, c.isUpper = false) : lower text = text := by
  have same : text.toList.map Char.toLower = text.toList :=
    (List.map_congr_left fun c member => Char.toLower_eq_of_not_isUpper (by simp [plain c member])).trans (List.map_id _)
  rw [lower, same, String.ofList_toList]

theorem lower_upper (text : String) : lower (upper text) = lower text := by
  rw [lower, upper, String.toList_ofList, List.map_map, lower]
  exact congrArg String.ofList (List.map_congr_left fun c _ => Char.toLower_toUpper_eq_toLower c)

/-! ### White space -/

theorem isWhitespace_toUpper (c : Char) : isWhitespace c.toUpper = isWhitespace c := by
  by_cases small : c.isLower = true
  · have range : 97 ≤ c.toNat ∧ c.toNat ≤ 122 := by simpa [Char.isLower, UInt32.le_iff_toNat_le] using small
    obtain ⟨least, most⟩ := range
    rw [← Char.ofNat_toNat c]
    generalize c.toNat = n at least most
    interval_cases n <;> rfl
  · rw [Char.toUpper_eq_of_not_isLower small]

theorem trim_of_plain {text : String} (plain : ∀ c ∈ text.toList, isWhitespace c = false) : trim text = text := by
  have kept {row : List Char} (black : ∀ c ∈ row, isWhitespace c = false) : row.dropWhile isWhitespace = row := by
    cases row with
    | nil => rfl
    | cons c rest => exact List.dropWhile_cons_of_neg (by simp [black c List.mem_cons_self])
  rw [trim, kept plain, kept fun c member => plain c (List.mem_reverse.mp member), List.reverse_reverse,
    String.ofList_toList]

end HitEnter.Lib.Ascii
