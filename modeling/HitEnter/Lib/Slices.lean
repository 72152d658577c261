import HitEnter.Lib.Ascii
import HitEnter.Lib.Checks

/-! Rows and texts that are cut at places given as numbers: a place out of range stops the program. -/

namespace HitEnter.Lib.Slices

open Hex Ascii Checks

variable {α : Type}

/-- Why there is no result: a place out of range, or what is read is refused. -/
inductive Stop where
  | outOfRange
  | refused
deriving DecidableEq

def orRefused (value : Option α) : Except Stop α := value.elim (.error .refused) .ok

def item (row : List α) (i : ℕ) : Except Stop α := row[i]?.elim (.error .outOfRange) .ok

def slice (row : List α) (start stop : ℕ) : Except Stop (List α) :=
  if start ≤ stop ∧ stop ≤ row.length then .ok ((row.take stop).drop start) else .error .outOfRange

/-- A slice that is not there rather than out of range. -/
def sliceIfThere (row : List α) (start stop : ℕ) : Option (List α) :=
  if start ≤ stop ∧ stop ≤ row.length then some ((row.take stop).drop start) else none

/-- A length less another, which must not be longer. -/
def less (a b : ℕ) : Except Stop ℕ := if b ≤ a then .ok (a - b) else .error .outOfRange

/-- A place between two characters: not before a byte that goes on with one. -/
def isCharBoundary (row : List UInt8) (i : ℕ) : Bool :=
  i == 0 || i == row.length || row[i]?.any fun b => b < 128 || 192 ≤ b

def sliceText (text : String) (start stop : ℕ) : Except Stop String :=
  if start ≤ stop ∧ isCharBoundary (bytes text) start ∧ isCharBoundary (bytes text) stop then
    (ofBytes (((bytes text).take stop).drop start)).elim (.error .outOfRange) .ok
  else .error .outOfRange

theorem item_eq {row : List α} {i : ℕ} (inside : i < row.length) : item row i = .ok row[i] := by
  rw [item, List.getElem?_eq_getElem inside, Option.elim_some]

theorem slice_eq {row : List α} {start stop : ℕ} (ordered : start ≤ stop) (inside : stop ≤ row.length) :
    slice row start stop = .ok ((row.take stop).drop start) := if_pos ⟨ordered, inside⟩

theorem less_eq {a b : ℕ} (shorter : b ≤ a) : less a b = .ok (a - b) := if_pos shorter

/-- A place past the front is one of what follows it. -/
theorem item_append (front back : List α) (i : ℕ) : item (front ++ back) (front.length + i) = item back i := by
  rw [item, item, List.getElem?_append_right (Nat.le_add_right _ _), Nat.add_sub_cancel_left]

theorem sliceIfThere_append (front back : List α) (start stop : ℕ) :
    sliceIfThere (front ++ back) (front.length + start) (front.length + stop) = sliceIfThere back start stop := by
  have room : (front.length + start ≤ front.length + stop ∧ front.length + stop ≤ (front ++ back).length) ↔
      start ≤ stop ∧ stop ≤ back.length := by
    rw [List.length_append]
    omega
  rw [sliceIfThere, sliceIfThere, List.take_length_add_append, List.drop_length_add_append]
  exact if_congr room rfl rfl

/-- No character begins with a byte that goes on with one. -/
theorem head_utf8EncodeChar (c : Char) : ∃ b rest, String.utf8EncodeChar c = b :: rest ∧ (b < 128 || 192 ≤ b) = true := by
  have high (n lead : ℕ) (top : 192 ≤ lead) (fits : n + lead < 256) : (192 : UInt8) ≤ UInt8.ofNat (n + lead) := by
    rw [UInt8.le_iff_toNat_le, UInt8.toNat_ofNat', Nat.mod_eq_of_lt fits]
    exact top.trans (Nat.le_add_left lead n)
  unfold String.utf8EncodeChar
  dsimp only
  by_cases one : c.val.toNat ≤ 127
  · have below : UInt8.ofNat c.val.toNat < 128 := by
      rw [UInt8.lt_iff_toNat_lt, UInt8.toNat_ofNat', Nat.mod_eq_of_lt (by omega)]
      exact Nat.lt_succ_of_le one
    exact ⟨_, [], if_pos one, Bool.or_eq_true_iff.mpr (.inl (decide_eq_true below))⟩
  rw [if_neg one]
  by_cases two : c.val.toNat ≤ 2047
  · refine ⟨_, _, if_pos two, Bool.or_eq_true_iff.mpr (.inr (decide_eq_true (high _ 192 (by decide) ?_)))⟩
    omega
  rw [if_neg two]
  by_cases three : c.val.toNat ≤ 65535
  · refine ⟨_, _, if_pos three, Bool.or_eq_true_iff.mpr (.inr (decide_eq_true (high _ 224 (by decide) ?_)))⟩
    omega
  · refine ⟨_, _, if_neg three, Bool.or_eq_true_iff.mpr (.inr (decide_eq_true (high _ 240 (by decide) ?_)))⟩
    omega

/-- The end of a text is a place between two characters of any that begins with it. -/
theorem isCharBoundary_append (front back : String) : isCharBoundary (bytes (front ++ back)) (bytes front).length = true := by
  unfold isCharBoundary
  rw [bytes_append]
  cases back_ : back.toList with
  | nil =>
    obtain rfl : back = "" := String.toList_inj.mp back_
    simp [bytes]
  | cons c rest =>
    obtain ⟨b, more, encoded, first⟩ := head_utf8EncodeChar c
    have row : bytes back = b :: (more ++ rest.flatMap String.utf8EncodeChar) := by
      rw [← String.ofList_toList (s := back), back_, bytes_ofList, List.flatMap_cons, encoded]
      rfl
    rw [row, List.getElem?_append_right (le_refl _), Nat.sub_self, List.getElem?_cons_zero, Option.any_some, first, Bool.or_true]

theorem isCharBoundary_end (text : String) : isCharBoundary (bytes text) (bytes text).length = true := by
  have whole := isCharBoundary_append text ""
  rwa [String.append_empty] at whole

theorem isCharBoundary_start (text : String) : isCharBoundary (bytes text) 0 = true := rfl

/-- A text is cut where another ends that it begins with. -/
theorem sliceText_front (front back : String) : sliceText (front ++ back) 0 (bytes front).length = .ok front := by
  rw [sliceText, if_pos ⟨Nat.zero_le _, isCharBoundary_start _, isCharBoundary_append front back⟩, bytes_append,
    List.take_left, List.drop_zero, ofBytes_bytes, Option.elim_some]

theorem sliceText_back (front back : String) :
    sliceText (front ++ back) (bytes front).length (bytes (front ++ back)).length = .ok back := by
  have ordered : (bytes front).length ≤ (bytes (front ++ back)).length := by
    rw [bytes_append, List.length_append]
    exact Nat.le_add_right _ _
  rw [sliceText, if_pos ⟨ordered, isCharBoundary_append front back, isCharBoundary_end _⟩, List.take_length, bytes_append,
    List.drop_left, ofBytes_bytes, Option.elim_some]

end HitEnter.Lib.Slices
