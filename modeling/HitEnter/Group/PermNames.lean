import HitEnter.Group.Genesis
import HitEnter.Lib.Ascii
import HitEnter.Lib.Checks

/-! The names permissions are spelled by. A printed set reads back as the bits this build
defines of it. -/

namespace HitEnter.Group.Permissions

open Lib.Text Lib.Ascii Lib.Checks

/-- Every permission with its name, ordered by bit. -/
def named : List (String × Permissions) :=
  [("view", viewChannel), ("send", sendMessages), ("manage-messages", manageMessages),
    ("manage-channels", manageChannels), ("invite", createInvite), ("manage-invites", manageInvites),
    ("kick", kickMembers), ("ban", banMembers), ("mute", muteMembers), ("manage-roles", manageRoles),
    ("manage-group", manageGroup), ("attach", attachFiles)]

/-- A name that is not a permission. -/
@[ext] structure UnknownPermission where
  word : String
deriving DecidableEq

/-- The names of the bits that are set. -/
def names (p : Permissions) : List String := (named.filter fun entry => p.contains entry.2).map Prod.fst

/-- What one word of a list adds. -/
def ofWord (word : String) : Except UnknownPermission Permissions :=
  if word = "" then .ok none
  else if word = "all" then .ok all
  else if word = "none" then .ok none
  else match named.find? fun entry => entry.1 == word with
    | some entry => .ok entry.2
    | Option.none => .error ⟨word⟩

def addWord (out : Permissions) (word : String) : Except UnknownPermission Permissions := do
  let added ← ofWord word
  return out.union added

/-- The words between commas, without the white space around them. -/
def wordsOf (list : String) : List String := (list.toList.splitOn ',').map fun row => trim (.ofList row)

def parseList (list : String) : Except UnknownPermission Permissions := (wordsOf list).foldlM addWord none

/-- The names, comma-separated, or `none`. -/
def display (p : Permissions) : String := if p.names.isEmpty then "none" else ",".intercalate p.names

theorem addWord_ok {out result : Permissions} {word : String} :
    addWord out word = .ok result ↔ ∃ added, ofWord word = .ok added ∧ out.union added = result := by
  simp only [addWord, bind_eq_ok, pure_eq_ok]

private theorem foldlM_ok {words : List String} {start result : Permissions} :
    words.foldlM addWord start = .ok result ↔ (∀ word ∈ words, ∃ added, ofWord word = .ok added) ∧
      ∀ i, result.has i ↔ start.has i ∨ ∃ word ∈ words, ∃ added, ofWord word = .ok added ∧ added.has i := by
  induction words generalizing start with
  | nil =>
    rw [List.foldlM_nil, pure_eq_ok]
    constructor
    · intro same
      subst same
      simp
    · intro bits
      apply ext_has
      intro i
      simpa using (bits.2 i).symm
  | cons word rest ih =>
    rw [List.foldlM_cons, bind_eq_ok, List.forall_mem_cons]
    constructor
    · intro ⟨next, first, later⟩
      obtain ⟨added, means, rfl⟩ := addWord_ok.mp first
      obtain ⟨known, bits⟩ := ih.mp later
      refine ⟨⟨⟨added, means⟩, known⟩, fun i => ?_⟩
      rw [bits, has_union]
      simp [means, or_assoc]
    · intro ⟨⟨⟨added, means⟩, known⟩, bits⟩
      refine ⟨start.union added, addWord_ok.mpr ⟨added, means, rfl⟩, ih.mpr ⟨known, fun i => ?_⟩⟩
      rw [bits, has_union]
      simp [means, or_assoc]

private theorem foldlM_error {words : List String} {start : Permissions} {unknown : UnknownPermission} :
    words.foldlM addWord start = .error unknown ↔ ∃ before after, words = before ++ unknown.word :: after ∧
      (∀ word ∈ before, ∃ added, ofWord word = .ok added) ∧ ofWord unknown.word = .error unknown := by
  induction words generalizing start with
  | nil => simp [pure, Except.pure]
  | cons word rest ih =>
    rw [List.foldlM_cons]
    cases means : ofWord word with
    | error refusal =>
      have own : refusal = ⟨word⟩ := by
        unfold ofWord at means
        repeat' split at means
        all_goals cases means
        rfl
      subst own
      simp only [addWord, means, bind, Except.bind, Except.error.injEq]
      constructor
      · intro same
        subst same
        exact ⟨[], rest, rfl, by simp, means⟩
      · intro ⟨before, after, split, known, _⟩
        cases before with
        | nil => exact UnknownPermission.ext_iff.mpr (List.cons.inj split).1
        | cons first others =>
          obtain ⟨added, reads⟩ := known first List.mem_cons_self
          rw [← (List.cons.inj split).1, means] at reads
          cases reads
    | ok added =>
      have adds : addWord start word = .ok (start.union added) := addWord_ok.mpr ⟨added, means, rfl⟩
      rw [adds]
      change rest.foldlM addWord (start.union added) = _ ↔ _
      rw [ih]
      constructor
      · intro ⟨before, after, split, known, refused⟩
        exact ⟨word :: before, after, congrArg (word :: ·) split, List.forall_mem_cons.mpr ⟨⟨added, means⟩, known⟩, refused⟩
      · intro ⟨before, after, split, known, refused⟩
        cases before with
        | nil =>
          rw [← (List.cons.inj split).1, means] at refused
          cases refused
        | cons first others =>
          exact ⟨others, after, (List.cons.inj split).2, (List.forall_mem_cons.mp known).2, refused⟩

/-- A list is read if every word of it is known, and grants the bits its words do; else
the first word that is not known is named. -/
theorem parseList_spec (list : String) :
    (∀ p, parseList list = .ok p ↔ (∀ word ∈ wordsOf list, ∃ added, ofWord word = .ok added) ∧
      ∀ i, p.has i ↔ ∃ word ∈ wordsOf list, ∃ added, ofWord word = .ok added ∧ added.has i) ∧
    ∀ unknown, parseList list = .error unknown ↔ ∃ before after, wordsOf list = before ++ unknown.word :: after ∧
      (∀ word ∈ before, ∃ added, ofWord word = .ok added) ∧ ofWord unknown.word = .error unknown := by
  constructor
  · intro p
    simp [parseList, foldlM_ok]
  · intro unknown
    exact foldlM_error

/-! ### Printed and read back -/

private theorem ofWord_named : ∀ entry ∈ named, ofWord entry.1 = .ok entry.2 := by
  decide +kernel

private theorem named_plain : ∀ entry ∈ named, ∀ c ∈ entry.1.toList, c ≠ ',' ∧ isWhitespace c = false := by
  simp [named, isWhitespace]

private theorem has_single (k : Fin 12) (i : Fin 64) :
    (⟨(1 : UInt64) <<< UInt64.ofNat k⟩ : Permissions).has i ↔ i.val = k.val := by
  revert i
  fin_cases k <;> decide

/-- Each defined bit has a name of its own, and no other bit has one. -/
private theorem named_bits (i : Fin 64) :
    (all.has i → ∃ entry ∈ named, entry.2.has i ∧ ∀ j, entry.2.has j → j = i) ∧
      ∀ entry ∈ named, entry.2.has i → all.has i := by
  have single : ∀ entry ∈ named, ∃ k : Fin 12, entry.2 = ⟨(1 : UInt64) <<< UInt64.ofNat k⟩ := by decide +kernel
  have each : ∀ k : Fin 12, ∃ entry ∈ named, entry.2 = ⟨(1 : UInt64) <<< UInt64.ofNat k⟩ := by decide +kernel
  have defined : all.has i ↔ i.val < 12 := by
    revert i
    decide +kernel
  constructor
  · intro held
    obtain ⟨entry, listed, own⟩ := each ⟨i, defined.mp held⟩
    refine ⟨entry, listed, own ▸ (has_single _ i).mpr rfl, fun j other => ?_⟩
    rw [own, has_single] at other
    exact Fin.ext other
  · intro entry listed held
    obtain ⟨k, own⟩ := single entry listed
    rw [own, has_single] at held
    exact defined.mpr (held ▸ k.isLt)

private theorem wordsOf_intercalate {words : List String} (some_ : words ≠ [])
    (plain : ∀ word ∈ words, ∀ c ∈ word.toList, c ≠ ',' ∧ isWhitespace c = false) :
    wordsOf (",".intercalate words) = words := by
  have cut : (",".intercalate words).toList.splitOn ',' = words.map String.toList := by
    rw [String.toList_intercalate]
    apply List.splitOn_intercalate
    · intro row listed member
      obtain ⟨word, own, rfl⟩ := List.mem_map.mp listed
      exact (plain word own ',' member).1 rfl
    · simpa using some_
  rw [wordsOf, cut, List.map_map]
  apply (List.map_congr_left _).trans (List.map_id words)
  intro word own
  simp only [Function.comp_apply, String.ofList_toList]
  exact trim_of_plain fun c member => (plain word own c member).2

/-- A printed set reads back as the defined bits of it. -/
theorem parseList_display (p : Permissions) : parseList p.display = .ok p.sanitized := by
  have shown {word : String} (own : word ∈ p.names) : ∃ entry ∈ named, p.contains entry.2 = true ∧ entry.1 = word := by
    obtain ⟨entry, listed, same⟩ := List.mem_map.mp own
    exact ⟨entry, (List.mem_filter.mp listed).1, (List.mem_filter.mp listed).2, same⟩
  have bits (i : Fin 64) : p.sanitized.has i ↔ ∃ word ∈ p.names, ∃ added, ofWord word = .ok added ∧ added.has i := by
    rw [has_sanitized]
    constructor
    · intro ⟨held, defined⟩
      obtain ⟨entry, listed, own, only⟩ := (named_bits i).1 defined
      have holds : p.contains entry.2 = true := contains_iff.mpr fun j other => only j other ▸ held
      exact ⟨entry.1, List.mem_map_of_mem (List.mem_filter.mpr ⟨listed, holds⟩), entry.2, ofWord_named entry listed, own⟩
    · intro ⟨word, own, added, means, held⟩
      obtain ⟨entry, listed, holds, rfl⟩ := shown own
      rw [ofWord_named entry listed] at means
      cases means
      exact ⟨contains_iff.mp holds i held, (named_bits i).2 entry listed held⟩
  rw [(parseList_spec _).1]
  unfold display
  split
  · rename_i empty
    have nothing : p.names = [] := List.isEmpty_iff.mp empty
    have words : wordsOf "none" = ["none"] := by decide +kernel
    have means : ofWord "none" = .ok none := by decide +kernel
    rw [words]
    refine ⟨by simp [means], fun i => ?_⟩
    rw [bits, nothing]
    simp [means]
  · rename_i full
    have words : wordsOf (",".intercalate p.names) = p.names := by
      apply wordsOf_intercalate
      · simpa using full
      · intro word own
        obtain ⟨entry, listed, _, rfl⟩ := shown own
        exact named_plain entry listed
    rw [words]
    refine ⟨fun word own => ?_, bits⟩
    obtain ⟨entry, listed, _, rfl⟩ := shown own
    exact ⟨entry.2, ofWord_named entry listed⟩

end HitEnter.Group.Permissions
