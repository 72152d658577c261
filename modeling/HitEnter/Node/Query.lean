import HitEnter.Lib.Ranks
import HitEnter.Node.Store

/-! Filters, and what the store answers to one: the rows its query selects, newest
first, as many as the filter asks for. -/

namespace HitEnter.Node

open Wire Lib.Ranks

/-- A tag's name of one ASCII letter. -/
structure SingleLetterTag where
  letter : Char
  ascii : letter.toNat < 128

def SingleLetterTag.text (tag : SingleLetterTag) : String := .ofList [tag.letter]

/-- A NIP-01 filter, with NIP-50's search. -/
structure Filter where
  ids : Option (List EventId) := none
  authors : Option (List PublicKey) := none
  kinds : Option (List Kind) := none
  search : Option String := none
  since : Option Timestamp := none
  until_ : Option Timestamp := none
  limit : Option Nat := none
  genericTags : List (SingleLetterTag × List String) := []

/-- A `u64` in a column of 64 bits with a sign. -/
def column (date : Timestamp) : Int := date.secs.toBitVec.toInt

/-- The rows of the tags table: names of one byte, with their first value. -/
def tagRows (ev : Event) : List (String × String) :=
  ev.tags.filterMap fun
    | name :: value :: _ => if (Lib.Hex.bytes name).length = 1 then some (name, value) else none
    | _ => none

namespace Filter

/-- What a filter means (NIP-01); a search is not supported and matches nothing. -/
def matchEvent (f : Filter) (ev : Event) : Bool :=
  f.search.isNone && f.ids.all (·.contains ev.id) && f.authors.all (·.contains ev.pubkey) &&
    f.kinds.all (·.contains ev.kind) && f.since.all (· ≤ ev.createdAt) && f.until_.all (ev.createdAt ≤ ·) &&
    f.genericTags.all fun entry => ev.tags.any fun
      | name :: value :: _ => name == entry.1.text && entry.2.contains value
      | _ => false

/-- The conditions of the query: dates are compared as the columns hold them. -/
def selects (f : Filter) (ev : Event) : Bool :=
  f.ids.all (·.contains ev.id) && f.authors.all (·.contains ev.pubkey) && f.kinds.all (·.contains ev.kind) &&
    f.since.all (fun since => column since ≤ column ev.createdAt) &&
    f.until_.all (fun until_ => column ev.createdAt ≤ column until_) &&
    f.genericTags.all fun entry => (tagRows ev).any fun row => row.1 == entry.1.text && entry.2.contains row.2

end Filter

/-- Newest first, then by id. -/
def newestFirst (ev : Event) : ℤᵒᵈ ×ₗ EventId := toLex (OrderDual.toDual (column ev.createdAt), ev.id)

/-- As many rows as fit in the column of a limit. -/
def rowLimit (limit : Nat) : Nat := min limit (2 ^ 63 - 1)

namespace Store

variable [Nostr]

/-- Events matching `filter`, newest first. A search is answered with nothing. -/
def query (s : Store) (filter : Filter) : List Event :=
  if filter.search.isSome then []
  else
    let rows := sorted newestFirst (s.events.filter filter.selects)
    filter.limit.elim rows fun limit => rows.take (rowLimit limit)

/-- The rows ahead of `ev` leave room for it in the answer. -/
def reaches (s : Store) (filter : Filter) (ev : Event) : Bool :=
  filter.limit.all fun limit => rank newestFirst (s.events.filter filter.selects) ev < rowLimit limit

theorem own_keys (s : Store) (filter : Filter) : ((s.events.filter filter.selects).map newestFirst).Nodup := by
  refine (List.Nodup.map_on (fun a first b second same => ?_) (s.ids.of_map _)).sublist (List.filter_sublist.map _)
  exact s.eq_of_id first second (congrArg Prod.snd same)

theorem query_ids (s : Store) (filter : Filter) : ((s.query filter).map Event.id).Nodup := by
  have rows : ((sorted newestFirst (s.events.filter filter.selects)).map Event.id).Nodup :=
    ((List.perm_insertionSort _ _).map Event.id).nodup_iff.mpr (s.ids.sublist (List.filter_sublist.map _))
  unfold query
  split
  · exact List.nodup_nil
  · cases filter.limit with
    | none => exact rows
    | some limit => exact rows.sublist ((List.take_sublist _ _).map _)

theorem mem_query {s : Store} {filter : Filter} {ev : Event} : ev ∈ s.query filter ↔
    ev ∈ s.events ∧ filter.search = none ∧ filter.selects ev = true ∧ s.reaches filter ev = true := by
  have own := s.own_keys filter
  unfold query reaches
  cases searched : filter.search with
  | some text => simp
  | none =>
    cases limited : filter.limit with
    | none => simp
    | some limit => simp [mem_take_sorted own, and_assoc]

/-- What is kept of an answer without limit depends on no other rows. -/
theorem filter_query_congr {s t : Store} {filter : Filter} {keep : Event → Bool} (whole : filter.limit = none)
    (same : ∀ row, keep row = true → (row ∈ s.events ↔ row ∈ t.events)) :
    (s.query filter).filter keep = (t.query filter).filter keep := by
  unfold query
  split
  · rfl
  · simp only [whole, Option.elim_none]
    refine filter_sorted_congr (s.own_keys filter) (t.own_keys filter) fun row kept => ?_
    rw [List.mem_filter, List.mem_filter, same row kept]

end Store

private theorem length_text (tag : SingleLetterTag) : (Lib.Hex.bytes tag.text).length = 1 := by
  have size : tag.letter.utf8Size = 1 := by
    have small : tag.letter.val ≤ 0x7f := UInt32.le_iff_toNat_le.mpr (Nat.le_of_lt_succ tag.ascii)
    simp [Char.utf8Size, small]
  rw [SingleLetterTag.text, Lib.Hex.bytes_ofList]
  simpa using size

/-- Every tag a filter can name has its row. -/
theorem any_tagRows (ev : Event) (tag : SingleLetterTag) (values : List String) :
    ((tagRows ev).any fun row => row.1 == tag.text && values.contains row.2) =
      ev.tags.any fun
        | name :: value :: _ => name == tag.text && values.contains value
        | _ => false := by
  rw [tagRows]
  induction ev.tags with
  | nil => rfl
  | cons cells rest ih =>
    rw [List.any_cons, ← ih]
    match cells with
    | [] => rfl
    | [_] => rfl
    | name :: value :: more =>
      by_cases same : name = tag.text
      · simp [same, length_text]
      · by_cases short : (Lib.Hex.bytes name).length = 1
        · simp [short]
        · simp [same, short]

/-- A date the columns hold as it is. -/
def inColumn (date : Timestamp) : Bool := date.secs.toNat < 2 ^ 63

theorem column_of_inColumn {date : Timestamp} (fits : inColumn date = true) : column date = date.secs.toNat := by
  simp only [inColumn, decide_eq_true_eq] at fits
  rw [column, BitVec.toInt_eq_toNat_of_lt]
  · rfl
  · change 2 * date.secs.toNat < 2 ^ 64
    omega

/-- The columns turn the other dates around. -/
theorem column_neg {date : Timestamp} (late : inColumn date = false) : column date < 0 := by
  have small : date.secs.toNat < 2 ^ 64 := date.secs.toNat_lt
  have large : 2 ^ 63 ≤ date.secs.toNat := by simpa [inColumn] using late
  have value : column date = if 2 * date.secs.toNat < 2 ^ 64 then (date.secs.toNat : ℤ) else date.secs.toNat - 2 ^ 64 :=
    BitVec.toInt_eq_toNat_cond date.secs.toBitVec
  rw [value]
  split <;> omega

/-- The bounds of `filter` and the date of `ev` are held as they are. -/
def Filter.inRange (f : Filter) (ev : Event) : Bool :=
  f.since.all inColumn && f.until_.all inColumn && inColumn ev.createdAt

/-- Within the range of the columns the query selects what the filter means. -/
theorem selects_of_inRange {filter : Filter} {ev : Event} (range : filter.inRange ev = true)
    (plain : filter.search = none) : filter.selects ev = filter.matchEvent ev := by
  simp only [Filter.inRange, Bool.and_eq_true] at range
  obtain ⟨⟨since, until_⟩, dated⟩ := range
  have before : filter.since.all (fun since => column since ≤ column ev.createdAt) =
      filter.since.all (· ≤ ev.createdAt) := by
    cases bound : filter.since with
    | none => rfl
    | some date =>
      rw [bound] at since
      simp only [Option.all_some, column_of_inColumn since, column_of_inColumn dated, Nat.cast_le]
      rfl
  have after : filter.until_.all (fun until_ => column ev.createdAt ≤ column until_) =
      filter.until_.all (ev.createdAt ≤ ·) := by
    cases bound : filter.until_ with
    | none => rfl
    | some date =>
      rw [bound] at until_
      simp only [Option.all_some, column_of_inColumn until_, column_of_inColumn dated, Nat.cast_le]
      rfl
  simp only [Filter.selects, Filter.matchEvent, before, after, any_tagRows, plain, Option.isNone_none, Bool.true_and]

end HitEnter.Node
