import HitEnter.Lib.Hex

/-! Strings, arrays and objects as compact JSON writes them, and how many bytes that
takes. -/

namespace HitEnter.Lib.Json

open Hex

/-- The bytes of a text, counted. -/
def size (text : String) : Nat := (bytes text).length

def quoteMark : Char := Char.ofNat 34
def backslash : Char := Char.ofNat 92

/-- The characters that have a letter to escape them by. -/
def shortEscapes : List (Nat × Char) := [(8, 'b'), (9, 't'), (10, 'n'), (12, 'f'), (13, 'r')]

/-- A character inside a string: marked, as a short escape, by its number, or as it is. -/
def escape (c : Char) : List Char :=
  if c = quoteMark ∨ c = backslash then [backslash, c]
  else match shortEscapes.lookup c.toNat with
    | some letter => [backslash, letter]
    | none =>
      if c.toNat < 32 then
        [backslash, 'u', '0', '0', Nat.digitChar (c.toNat / 16), Nat.digitChar (c.toNat % 16)]
      else [c]

def quote (text : String) : String := .ofList (quoteMark :: text.toList.flatMap escape ++ [quoteMark])

def array (items : List String) : String := "[" ++ String.intercalate "," items ++ "]"

def object (fields : List (String × String)) : String :=
  "\x7b" ++ String.intercalate "," (fields.map fun field => quote field.1 ++ ":" ++ field.2) ++ "\x7d"

theorem size_ofList (row : List Char) : size (String.ofList row) = (row.map Char.utf8Size).sum := by
  rw [size, bytes_ofList, List.length_flatMap]
  simp

@[simp] theorem size_append (a b : String) : size (a ++ b) = size a + size b := by
  simp [size, bytes]

theorem size_toList (text : String) : size text = (text.toList.map Char.utf8Size).sum := by
  rw [← size_ofList, String.ofList_toList]

/-- The bytes of a character inside a string. -/
def escapeSize (c : Char) : Nat := ((escape c).map Char.utf8Size).sum

theorem length_le_size (text : String) : text.length ≤ size text := by
  rw [size_toList, ← String.length_toList, ← @List.length_map _ _ text.toList Char.utf8Size]
  refine List.length_le_sum_of_one_le _ fun bytes member => ?_
  obtain ⟨c, _, rfl⟩ := List.mem_map.mp member
  exact c.utf8Size_pos

/-- A quoted text, by its characters. -/
theorem size_quote (text : String) : size (quote text) = (text.toList.map escapeSize).sum + 2 := by
  have mark : quoteMark.utf8Size = 1 := rfl
  have inside : ((text.toList.flatMap escape).map Char.utf8Size).sum = (text.toList.map escapeSize).sum := by
    induction text.toList with
    | nil => rfl
    | cons c rest ih => simp only [List.flatMap_cons, List.map_append, List.sum_append, List.map_cons, List.sum_cons, ih,
        escapeSize]
  rw [quote, size_ofList, List.map_append, List.map_cons, List.sum_append, List.sum_cons, mark, inside]
  simp [mark]
  omega

private theorem digit_size (small : n < 16) : (Nat.digitChar n).utf8Size = 1 := by
  interval_cases n <;> rfl

private theorem letter_size {n : Nat} {letter : Char} (short : shortEscapes.lookup n = some letter) :
    letter.utf8Size = 1 := by
  simp only [shortEscapes, List.lookup_cons, List.lookup_nil] at short
  repeat' split at short
  all_goals cases short
  all_goals rfl

/-- No character takes more than six times its bytes. -/
theorem escapeSize_le (c : Char) : escapeSize c ≤ 6 * c.utf8Size := by
  have slash : backslash.utf8Size = 1 := rfl
  have least := c.utf8Size_pos
  unfold escapeSize escape
  split
  · simp only [List.map_cons, List.map_nil, List.sum_cons, List.sum_nil, slash]
    omega
  · split
    · rename_i letter short
      simp only [List.map_cons, List.map_nil, List.sum_cons, List.sum_nil, slash, letter_size short]
      omega
    · split
      · rename_i low
        have u : 'u'.utf8Size = 1 := rfl
        have zero : '0'.utf8Size = 1 := rfl
        have high : c.toNat / 16 < 16 := by omega
        have digit : c.toNat % 16 < 16 := Nat.mod_lt _ (by decide)
        simp only [List.map_cons, List.map_nil, List.sum_cons, List.sum_nil, slash, u, zero, digit_size high,
          digit_size digit]
        omega
      · simp only [List.map_cons, List.map_nil, List.sum_cons, List.sum_nil]
        omega

theorem size_quote_le (text : String) : size (quote text) ≤ 6 * size text + 2 := by
  rw [size_quote, size_toList]
  have inside : (text.toList.map escapeSize).sum ≤ 6 * (text.toList.map Char.utf8Size).sum := by
    induction text.toList with
    | nil => rfl
    | cons c rest ih =>
      have first := escapeSize_le c
      simp only [List.map_cons, List.sum_cons]
      omega
  omega

/-- A row of one character. -/
theorem size_quote_replicate (n : Nat) (c : Char) :
    size (quote (.ofList (List.replicate n c))) = n * escapeSize c + 2 := by
  rw [size_quote, String.toList_ofList, List.map_replicate, List.sum_replicate, smul_eq_mul]

theorem size_replicate (n : Nat) (c : Char) : size (.ofList (List.replicate n c)) = n * c.utf8Size := by
  rw [size_ofList, List.map_replicate, List.sum_replicate, smul_eq_mul]

end HitEnter.Lib.Json
