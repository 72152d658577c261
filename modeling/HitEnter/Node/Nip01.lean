import HitEnter.Group.Readers
import HitEnter.Node.Tables

/-! A filter as the query reads it, and as it is meant. The query compares a date with its
bounds in columns that have a sign, which the dates and bounds of NIP-01 have not. -/

namespace HitEnter.Node

open Wire HitEnter.Group Lib.Ranks

/-! ### What is meant -/

/-- Newest first, then by id. -/
def newest (ev : Event) : Timestampᵒᵈ ×ₗ EventId := toLex (OrderDual.toDual ev.createdAt, ev.id)

/-- The events that match `f`, newest first, as many as it asks for. -/
def nip01 (held : List Event) (f : Filter) : List Event :=
  let rows := sorted newest (held.filter f.matchEvent)
  f.limit.elim rows rows.take

namespace Filter

/-- The lists of a filter, without its bounds. -/
def lists (f : Filter) : Filter := { f with since := none, until_ := none, limit := none }

/-- Is `date` within the bounds? -/
def dates (f : Filter) (date : Timestamp) : Bool := f.since.all (· ≤ date) && f.until_.all (date ≤ ·)

/-- Is it, as columns hold it and them? -/
def columns (f : Filter) (date : Timestamp) : Bool :=
  f.since.all (fun since => column since ≤ column date) && f.until_.all fun until_ => column date ≤ column until_

/-- The columns do not turn around a bound or a date that matters, and no more events match
than a limit in a column can ask for, if it asks for more. -/
structure Fits (f : Filter) (held : List Event) : Prop where
  bounds : ∀ ev ∈ held, f.lists.matchEvent ev = true → f.columns ev.createdAt = f.dates ev.createdAt
  inside : ∀ ev ∈ held, f.lists.matchEvent ev = true → f.dates ev.createdAt = true → inColumn ev.createdAt = true
  limit : ∀ limit, f.limit = some limit → limit ≤ 2 ^ 63 - 1 ∨ (held.filter f.matchEvent).length ≤ 2 ^ 63 - 1

theorem matchEvent_eq (f : Filter) (ev : Event) : f.matchEvent ev = (f.lists.matchEvent ev && f.dates ev.createdAt) := by
  simp only [matchEvent, lists, dates, Option.all_none, Bool.and_true]
  ac_rfl

theorem selects_eq {f : Filter} (plain : f.search = none) (ev : Event) :
    f.selects ev = (f.lists.matchEvent ev && f.columns ev.createdAt) := by
  simp only [selects, matchEvent, lists, columns, any_tagRows, plain, Option.isNone_none, Bool.true_and, Option.all_none,
    Bool.and_true]
  ac_rfl

end Filter

/-! ### What is queried -/

namespace Tables

/-- `SELECT event_id FROM tags WHERE name = ? AND value IN (..)`. -/
def tagged (t : Tables) (tag : SingleLetterTag) (values : List String) : List EventId :=
  (t.tags.filter fun row => row.2.1 == tag.text && values.contains row.2.2).map (·.1)

/-- The clauses of a filter, on the columns of a row. -/
def pushFilter (t : Tables) (f : Filter) (row : EventRow) : Bool :=
  f.ids.all (·.contains row.id) && f.authors.all (·.contains row.pubkey) && f.kinds.all (·.contains row.kind) &&
    f.since.all (fun since => column since ≤ row.createdAt) &&
    f.until_.all (fun until_ => row.createdAt ≤ column until_) &&
    f.genericTags.all fun entry => (t.tagged entry.1 entry.2).contains row.id

/-- `ORDER BY created_at DESC, id`. -/
def rowOrder (row : EventRow) : ℤᵒᵈ ×ₗ EventId := toLex (OrderDual.toDual row.createdAt, row.id)

def query (t : Tables) (f : Filter) : List Event :=
  if f.search.isSome then []
  else
    let rows := sorted rowOrder (t.events.filter (t.pushFilter f))
    (f.limit.elim rows fun limit => rows.take (rowLimit limit)).map EventRow.json

/-- The set negentropy reconciles over, whatever the limit. -/
def idTimes (t : Tables) (f : Filter) : List (UInt64 × EventId) :=
  if f.search.isSome then []
  else (t.events.filter (t.pushFilter f)).map fun row => (UInt64.ofNat row.createdAt.toNat, row.id)

/-- The ids of `author`'s events of `kinds` in `group` dated from `since` on and before
`until_`. -/
def authoredIn [Nostr] (t : Tables) (group author : PublicKey) (kinds : List Kind) (since : Timestamp)
    (until_ : Option Timestamp) : List EventId :=
  if until_.any (· ≤ since) then []
  else
    (t.query (Filter.inGroup {
      authors := some [author]
      kinds := some kinds
      since := some since
      until_ := until_.map fun u => ⟨u.secs - 1⟩ } group)).map Event.id

end Tables

section Meaning
variable [NostrEvents] {t : Tables} {s : Store} {arrived : EventId → Timestamp} {f : Filter}

namespace Tables.Holds

private theorem tagged (holds : t.Holds s arrived) {ev : Event} (held : ev ∈ s.events) (tag : SingleLetterTag)
    (values : List String) : (t.tagged tag values).contains ev.id =
      (tagRows ev).any fun row => row.1 == tag.text && values.contains row.2 := by
  rw [Bool.eq_iff_iff, List.contains_iff_mem, List.any_eq_true, Tables.tagged, holds.tags]
  simp only [List.mem_map, List.mem_filter, List.mem_flatMap]
  constructor
  · rintro ⟨_, ⟨⟨other, here, row, listed, rfl⟩, fits⟩, own⟩
    obtain rfl := s.eq_of_id here held own
    exact ⟨row, listed, fits⟩
  · rintro ⟨row, listed, fits⟩
    exact ⟨(ev.id, row), ⟨⟨ev, held, row, listed, rfl⟩, fits⟩, rfl⟩

/-- The clauses select the row of an event as the filter does the event. -/
theorem pushFilter (holds : t.Holds s arrived) {ev : Event} (held : ev ∈ s.events) (now : Timestamp) :
    t.pushFilter f (.of ev now) = f.selects ev := by
  unfold Tables.pushFilter Filter.selects
  refine congrArg _ (congrArg _ (funext fun entry => ?_))
  exact holds.tagged held entry.1 entry.2

private theorem rows (holds : t.Holds s arrived) (f : Filter) : t.events.filter (t.pushFilter f) =
    (s.events.filter f.selects).map fun ev => .of ev (arrived ev.id) := by
  rw [holds.events, List.filter_map]
  exact congrArg _ (List.filter_congr fun ev held => holds.pushFilter held _)

theorem query (holds : t.Holds s arrived) (f : Filter) : t.query f = s.query f := by
  unfold Tables.query Store.query
  split
  · rfl
  have order : (sorted newestFirst (s.events.filter f.selects)).map (fun ev => EventRow.of ev (arrived ev.id)) =
      sorted rowOrder (t.events.filter (t.pushFilter f)) := by
    rw [holds.rows]
    exact List.map_insertionSort _ _ _ _ fun a _ b _ => Iff.rfl
  rw [← order]
  have back : (fun ev => (EventRow.of ev (arrived ev.id)).json) = id := rfl
  cases f.limit with
  | none => simp [Function.comp_def, back]
  | some limit => simp [Function.comp_def, back, ← List.map_take]

theorem idTimes (holds : t.Holds s arrived) (plain : f.search = none) : t.idTimes f =
    (s.events.filter f.selects).map fun ev => (UInt64.ofNat (column ev.createdAt).toNat, ev.id) := by
  rw [Tables.idTimes, plain, holds.rows]
  simp [EventRow.of]

theorem authoredIn (holds : t.Holds s arrived) (group author : PublicKey) (kinds : List Kind) (since : Timestamp)
    (until_ : Option Timestamp) : t.authoredIn group author kinds since until_ =
      s.authoredIn group author kinds since until_ := by
  unfold Tables.authoredIn Store.authoredIn
  rw [holds.query]

end Tables.Holds

/-! ### Where they agree -/

omit [NostrEvents] in
private theorem column_toNat (date : Timestamp) : UInt64.ofNat (column date).toNat = date.secs ↔ inColumn date = true := by
  cases fits : inColumn date with
  | true => simp [column_of_inColumn fits]
  | false =>
    have large : 2 ^ 63 ≤ date.secs.toNat := by simpa [inColumn] using fits
    have none_ : (column date).toNat = 0 := by
      have negative := column_neg fits
      omega
    simp only [none_, Bool.false_eq_true, iff_false]
    intro same
    have zero : date.secs.toNat = 0 := by rw [← same]; rfl
    omega

omit [NostrEvents] in
private theorem newestFirst_le {a b : Event} (first : inColumn a.createdAt = true) (second : inColumn b.createdAt = true) :
    newestFirst a ≤ newestFirst b ↔ newest a ≤ newest b := by
  have less : ∀ {x y : Timestamp}, inColumn x = true → inColumn y = true → (column x < column y ↔ x < y) := by
    intro x y fits fits'
    rw [column_of_inColumn fits, column_of_inColumn fits', Nat.cast_lt]
    rfl
  have same : column a.createdAt = column b.createdAt ↔ a.createdAt = b.createdAt := by
    rw [column_of_inColumn first, column_of_inColumn second, Nat.cast_inj]
    exact ⟨fun same => Timestamp.toNat_injective same, fun same => by rw [same]⟩
  simp only [newestFirst, newest, Prod.Lex.toLex_le_toLex, OrderDual.toDual_lt_toDual, OrderDual.toDual_inj, same,
    less second first]

omit [NostrEvents] in
/-- The ids and dates are those of the events that match. -/
private theorem idTimes_iff (held : List Event) (ids : (held.map Event.id).Nodup) (f : Filter) :
    ((held.filter f.selects).map fun ev => (UInt64.ofNat (column ev.createdAt).toNat, ev.id)).Perm
        ((held.filter f.matchEvent).map fun ev => (ev.createdAt.secs, ev.id)) ↔
      ∀ ev ∈ held, f.selects ev = f.matchEvent ev ∧ (f.matchEvent ev = true → inColumn ev.createdAt = true) := by
  constructor
  · intro same ev member
    have own : ∀ other ∈ held, other.id = ev.id → other = ev :=
      fun other here => List.inj_on_of_nodup_map ids here member
    have asMeant : f.selects ev = true → f.matchEvent ev = true := by
      intro selected
      obtain ⟨other, here, pair⟩ := List.mem_map.mp (same.subset (List.mem_map_of_mem (List.mem_filter.mpr ⟨member, selected⟩)))
      obtain ⟨listed, fits⟩ := List.mem_filter.mp here
      exact own other listed (congrArg Prod.snd pair) ▸ fits
    have asRead : f.matchEvent ev = true → f.selects ev = true ∧ inColumn ev.createdAt = true := by
      intro fits
      obtain ⟨other, here, pair⟩ :=
        List.mem_map.mp (same.symm.subset (List.mem_map_of_mem (List.mem_filter.mpr ⟨member, fits⟩)))
      obtain ⟨listed, selected⟩ := List.mem_filter.mp here
      obtain rfl := own other listed (congrArg Prod.snd pair)
      exact ⟨selected, (column_toNat _).mp (congrArg Prod.fst pair)⟩
    exact ⟨Bool.eq_iff_iff.mpr ⟨asMeant, fun fits => (asRead fits).1⟩, fun fits => (asRead fits).2⟩
  · intro agree
    rw [List.filter_congr fun ev member => (agree ev member).1]
    refine List.Perm.of_eq (List.map_congr_left fun ev member => ?_)
    obtain ⟨listed, fits⟩ := List.mem_filter.mp member
    rw [(column_toNat _).mpr ((agree ev listed).2 fits)]

/-- The rows of the query are the events that match, and cut at the same place. -/
private theorem query_iff (plain : f.search = none) (agree : ∀ ev ∈ s.events, f.selects ev = f.matchEvent ev ∧
      (f.matchEvent ev = true → inColumn ev.createdAt = true)) : s.query f = nip01 s.events f ↔
    ∀ limit, f.limit = some limit → limit ≤ 2 ^ 63 - 1 ∨ (s.events.filter f.matchEvent).length ≤ 2 ^ 63 - 1 := by
  have rows : sorted newestFirst (s.events.filter f.selects) = sorted newest (s.events.filter f.matchEvent) := by
    rw [List.filter_congr fun ev member => (agree ev member).1]
    have order := List.map_insertionSort (fun a b => newestFirst a ≤ newestFirst b) (fun a b => newest a ≤ newest b) id
      (s.events.filter f.matchEvent) fun a first b second => by
        obtain ⟨here, fits⟩ := List.mem_filter.mp first
        obtain ⟨here', fits'⟩ := List.mem_filter.mp second
        exact newestFirst_le ((agree a here).2 fits) ((agree b here').2 fits')
    rwa [List.map_id, List.map_id] at order
  have size : (sorted newest (s.events.filter f.matchEvent)).length = (s.events.filter f.matchEvent).length :=
    (List.perm_insertionSort _ _).length_eq
  unfold Store.query nip01
  rw [plain, rows]
  cases f.limit with
  | none => simp
  | some limit =>
    simp only [Option.isSome_none, Bool.false_eq_true, if_false, Option.elim_some, rowLimit, Option.some.injEq,
      forall_eq']
    constructor
    · intro cut
      have lengths := congrArg List.length cut
      rw [List.length_take, List.length_take, size] at lengths
      omega
    · rintro (short | few)
      · rw [min_eq_left short]
      · by_cases short : limit ≤ 2 ^ 63 - 1
        · rw [min_eq_left short]
        · rw [List.take_of_length_le (by omega), List.take_of_length_le (by omega)]

omit [NostrEvents] in
theorem Filter.fits_iff (plain : f.search = none) (held : List Event) : f.Fits held ↔
    (∀ ev ∈ held, f.selects ev = f.matchEvent ev ∧ (f.matchEvent ev = true → inColumn ev.createdAt = true)) ∧
      ∀ limit, f.limit = some limit → limit ≤ 2 ^ 63 - 1 ∨ (held.filter f.matchEvent).length ≤ 2 ^ 63 - 1 := by
  constructor
  · intro fits
    refine ⟨fun ev member => ?_, fits.limit⟩
    rw [selects_eq plain ev, matchEvent_eq f ev]
    by_cases named : f.lists.matchEvent ev = true
    · simpa [named] using ⟨fits.bounds ev member named, fits.inside ev member named⟩
    · simp [named]
  · rintro ⟨agree, cut⟩
    have parts : ∀ ev ∈ held, f.lists.matchEvent ev = true → f.columns ev.createdAt = f.dates ev.createdAt ∧
        (f.dates ev.createdAt = true → inColumn ev.createdAt = true) := by
      intro ev member named
      have both := agree ev member
      rw [selects_eq plain ev, matchEvent_eq f ev] at both
      simpa [named] using both
    exact ⟨fun ev member named => (parts ev member named).1, fun ev member named => (parts ev member named).2, cut⟩

/-- The events of its author, of these kinds and with the group's `h` tag, in a silence. -/
def silencedIn (held : List Event) (group : PublicKey) (kinds : List Kind) (silence : Silence) : List Event :=
  held.filter fun ev =>
    (Filter.inGroup { authors := some [silence.who], kinds := some kinds } group).matchEvent ev &&
      silence.covers ev.createdAt

/-- What a silence covers is found where its bounds, as columns hold them, take in the same of
the events it is about. -/
def Spans (held : List Event) (group : PublicKey) (kinds : List Kind) (silence : Silence) : Prop :=
  silence.until_.any (· ≤ silence.since) = true ∨ ∀ ev ∈ held,
    (Filter.inGroup { authors := some [silence.who], kinds := some kinds } group).matchEvent ev = true →
      (column silence.since ≤ column ev.createdAt ∧
          (∀ u, silence.until_ = some u → column ev.createdAt ≤ column ⟨u.secs - 1⟩) ↔
        silence.covers ev.createdAt = true)

omit [NostrEvents] in
private theorem perm_ids_iff {held : List Event} (ids : (held.map Event.id).Nodup) {p q : Event → Bool} :
    ((held.filter p).map Event.id).Perm ((held.filter q).map Event.id) ↔ ∀ ev ∈ held, p ev = q ev := by
  have listed : ∀ r : Event → Bool, ∀ ev ∈ held, ev.id ∈ (held.filter r).map Event.id ↔ r ev = true := by
    intro r ev member
    constructor
    · intro listed
      obtain ⟨other, here, same⟩ := List.mem_map.mp listed
      obtain ⟨there, picked⟩ := List.mem_filter.mp here
      exact List.inj_on_of_nodup_map ids there member same ▸ picked
    · exact fun picked => List.mem_map_of_mem (List.mem_filter.mpr ⟨member, picked⟩)
  constructor
  · intro same ev member
    rw [Bool.eq_iff_iff, ← listed p ev member, ← listed q ev member]
    exact same.mem_iff
  · intro agree
    rw [List.filter_congr agree]

private theorem authoredIn_iff (group : PublicKey) (kinds : List Kind) (silence : Silence) :
    (s.authoredIn group silence.who kinds silence.since silence.until_).Perm
        ((silencedIn s.events group kinds silence).map Event.id) ↔ Spans s.events group kinds silence := by
  unfold Store.authoredIn Spans
  by_cases empty : silence.until_.any (· ≤ silence.since) = true
  · have nothing : silencedIn s.events group kinds silence = [] := by
      obtain ⟨u, ends, early⟩ := (Option.any_eq_true _ _).mp empty
      refine List.filter_eq_nil_iff.mpr fun ev _ covered => ?_
      simp only [Silence.covers, ends, Option.all_some, Bool.and_eq_true, decide_eq_true_eq] at covered early
      exact absurd covered.2.2 (not_lt.mpr (early.trans covered.2.1))
    simp [empty, nothing]
  · let g := Filter.inGroup {
      authors := some [silence.who]
      kinds := some kinds
      since := some silence.since
      until_ := silence.until_.map fun u => ⟨u.secs - 1⟩ } group
    rw [if_neg empty]
    have rows : (s.query g).Perm (s.events.filter g.selects) := List.perm_insertionSort _ _
    have columns : ∀ date, g.columns date = true ↔ column silence.since ≤ column date ∧
        ∀ u, silence.until_ = some u → column date ≤ column ⟨u.secs - 1⟩ := by
      intro date
      cases ends : silence.until_ <;> simp [g, Filter.columns, Filter.inGroup, ends]
    rw [(rows.map Event.id).congr_left, silencedIn, perm_ids_iff s.ids]
    rw [or_iff_right empty]
    refine forall₂_congr fun ev member => ?_
    rw [Filter.selects_eq rfl]
    change (_ && _) = ((Filter.lists g).matchEvent ev && _) ↔ _
    by_cases named : (Filter.lists g).matchEvent ev = true
    · rw [← columns]
      simp only [named, Bool.true_and]
      rw [Bool.eq_iff_iff]
      exact ⟨fun same _ => same, fun same => same named⟩
    · simp only [named, Bool.false_and, true_iff]
      exact fun named' => absurd named' named

/-- After any inserts and removals: a query answers with what its filter means, and the set
to reconcile over is that of what it means, if and only if the filter fits what is held; and
what a silence covers is found if and only if its span does. -/
theorem query_nip01_iff (ops : List TableOp) :
    (∀ f : Filter,
      (Tables.run ops).query f = nip01 (Tables.run ops).held f ∧
          ((Tables.run ops).idTimes f).Perm
            (((Tables.run ops).held.filter f.matchEvent).map fun ev => (ev.createdAt.secs, ev.id)) ↔
        f.Fits (Tables.run ops).held) ∧
      ∀ (group : PublicKey) (kinds : List Kind) (silence : Silence),
        ((Tables.run ops).authoredIn group silence.who kinds silence.since silence.until_).Perm
            ((silencedIn (Tables.run ops).held group kinds silence).map Event.id) ↔
          Spans (Tables.run ops).held group kinds silence := by
  obtain ⟨arrived, holds⟩ := Tables.holds_run ops
  rw [holds.held]
  constructor
  · intro f
    rw [holds.query]
    cases searched : f.search with
    | some text =>
      have nothing : ∀ held : List Event, held.filter f.matchEvent = [] :=
        fun held => List.filter_eq_nil_iff.mpr fun ev _ => by simp [Filter.matchEvent, searched]
      refine iff_of_true ?_ ⟨?_, ?_, fun limit _ => .inr (by simp [nothing])⟩
      · cases asked : f.limit <;>
          simp [nip01, nothing, Store.query, Tables.idTimes, searched, asked, sorted]
      · intro ev _ named
        simp [Filter.lists, Filter.matchEvent, searched] at named
      · intro ev _ named
        simp [Filter.lists, Filter.matchEvent, searched] at named
    | none =>
      rw [holds.idTimes searched, idTimes_iff _ (Store.ids _), Filter.fits_iff searched]
      constructor
      · rintro ⟨same, agree⟩
        exact ⟨agree, (query_iff searched agree).mp same⟩
      · rintro ⟨agree, cut⟩
        exact ⟨(query_iff searched agree).mpr cut, agree⟩
  · intro group kinds silence
    rw [holds.authoredIn]
    exact authoredIn_iff group kinds silence

end Meaning

/-- A store with a message in it. -/
def helloTables : Tables := .run [.insert (hello 500) 600]

/-- The first date that a column turns around. -/
def signBit : Timestamp := ⟨2 ^ 63⟩

/-- Asked for what is no older than that, the store answers with everything it holds. -/
theorem helloTables_signBit : helloTables.query { since := some signBit } = [hello 500] ∧
    helloTables.idTimes { since := some signBit } = [(500, (hello 500).id)] ∧
    nip01 helloTables.held { since := some signBit } = [] ∧
    helloTables.authoredIn club guest deletableKinds signBit none = [(hello 500).id] ∧
    silencedIn helloTables.held club deletableKinds ⟨guest, signBit, none, false⟩ = [] := by
  decide +kernel

end HitEnter.Node
