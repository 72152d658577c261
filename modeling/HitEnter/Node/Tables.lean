import HitEnter.Node.Inner

/-! The store's tables as SQLite holds them: the events with the columns a query reads, and
beside them the rows for their tags and their files, which come and go with them. -/

namespace HitEnter.Node

open Wire Lib.Ranks

section Tables
variable [NostrEvents]

/-- A row of the events table: its columns, and its JSON, which reads back as the event. -/
structure EventRow where
  id : EventId
  pubkey : PublicKey
  createdAt : ℤ
  kind : Kind
  slotD : Option String
  json : Event
  receivedAt : ℤ

def EventRow.of (ev : Event) (now : Timestamp) : EventRow where
  id := ev.id
  pubkey := ev.pubkey
  createdAt := column ev.createdAt
  kind := ev.kind
  slotD := Node.slotD ev
  json := ev
  receivedAt := column now

/-- The files a message carries, with the sizes its author gives them. -/
def attachmentRows (ev : Event) : List (String × ℤ) :=
  if ev.kind = chatMessage then
    ((attachmentsOf ev).getD []).map fun file => (file.hash, min (file.size.toNat : ℤ) (2 ^ 63 - 1))
  else []

structure Tables where
  events : List EventRow := []
  tags : List (EventId × String × String) := []
  attachments : List (EventId × String × ℤ) := []

namespace Tables

/-- `DELETE FROM events WHERE id = ?`, which the other tables follow. -/
def delete (t : Tables) (id : EventId) : Tables where
  events := t.events.filter (·.id ≠ id)
  tags := t.tags.filter (·.1 ≠ id)
  attachments := t.attachments.filter (·.1 ≠ id)

/-- The rows of `ev`. -/
def put (t : Tables) (ev : Event) (now : Timestamp) : Tables where
  events := t.events ++ [.of ev now]
  tags := t.tags ++ (tagRows ev).map fun row => (ev.id, row)
  attachments := t.attachments ++ (attachmentRows ev).map fun row => (ev.id, row)

/-- The row in the slot of `ev`, if it has one. -/
def current (t : Tables) (ev : Event) : Option EventRow :=
  t.events.find? fun row => (slotD ev).isSome && ev.kind == row.kind && ev.pubkey == row.pubkey && slotD ev == row.slotD

/-- Is there a row with the id of `ev`, or in its slot? -/
def clashes (t : Tables) (ev : Event) : Bool := t.events.any (·.id == ev.id) || (t.current ev).isSome

def insert (t : Tables) (ev : Event) (now : Timestamp) : Tables × Stored :=
  if slot ev = .ephemeral then (t, .ephemeral)
  else match t.current ev with
    | some row =>
      if row.json.id = ev.id then (t, .duplicate)
      else if replaces ev row.json = false then (t, .stale)
      -- Nothing is committed where the insert is ignored, the deletion neither.
      else if (t.delete row.json.id).clashes ev then (t, .duplicate)
      else ((t.delete row.json.id).put ev now, .new)
    | none => if t.clashes ev then (t, .duplicate) else (t.put ev now, .new)

def remove (t : Tables) (ids : List EventId) : Tables := ids.foldl delete t

def held (t : Tables) : List Event := t.events.map EventRow.json

end Tables

/-! ### The tables hold what the store does -/

/-- The tables hold these events, with the rows that belong to them and no others. -/
structure Tables.Holds (t : Tables) (s : Store) (arrived : EventId → Timestamp) : Prop where
  events : t.events = s.events.map fun ev => .of ev (arrived ev.id)
  tags : t.tags = s.events.flatMap fun ev => (tagRows ev).map fun row => (ev.id, row)
  attachments : t.attachments = s.events.flatMap fun ev => (attachmentRows ev).map fun row => (ev.id, row)

private theorem Store.insert_found {s : Store} {ev held : Event} (kept : slot ev ≠ .ephemeral)
    (found : s.current ev = some held) : s.insert ev =
      if held.id = ev.id then (s, .duplicate)
      else if replaces ev held = false then (s, .stale)
      else if fresh : ∀ row ∈ s.events, row.id ≠ ev.id then
        ((s.keep fun row => row.id ≠ held.id).push ev (fun row member => fresh row (List.mem_filter.mp member).1)
          (free_of_current found), .new)
      else (s, .duplicate) := by
  unfold Store.insert
  rw [if_neg kept]
  split
  · rename_i other found'
    obtain rfl := Option.some.inj (found.symm.trans found')
    rfl
  · rename_i vacant
    cases found.symm.trans vacant

private theorem Store.insert_vacant {s : Store} {ev : Event} (kept : slot ev ≠ .ephemeral)
    (vacant : s.current ev = none) : s.insert ev =
      if fresh : ∀ row ∈ s.events, row.id ≠ ev.id then (s.push ev fresh (free_of_none vacant), .new)
      else (s, .duplicate) := by
  unfold Store.insert
  rw [if_neg kept]
  split
  · rename_i held found
    cases vacant.symm.trans found
  · rfl

variable {t : Tables} {s : Store} {arrived : EventId → Timestamp}

omit [NostrEvents] in
private theorem filter_flatMap_ids {α : Type} (rows : Event → List α) (events : List Event) (id : EventId) :
    (events.flatMap fun ev => (rows ev).map fun row => (ev.id, row)).filter (·.1 ≠ id) =
      (events.filter (·.id ≠ id)).flatMap fun ev => (rows ev).map fun row => (ev.id, row) := by
  induction events with
  | nil => rfl
  | cons ev rest ih =>
    rw [List.flatMap_cons, List.filter_append, ih]
    by_cases same : ev.id = id
    · simp [same, List.filter_map, Function.comp_def]
    · simp [same, List.filter_map, Function.comp_def]

namespace Tables.Holds

theorem delete (holds : t.Holds s arrived) (id : EventId) :
    (t.delete id).Holds (s.keep fun ev => ev.id ≠ id) arrived where
  events := by
    simp only [Tables.delete, holds.events, List.filter_map, Store.keep]
    rfl
  tags := by rw [Tables.delete, holds.tags, filter_flatMap_ids]; rfl
  attachments := by rw [Tables.delete, holds.attachments, filter_flatMap_ids]; rfl

theorem held (holds : t.Holds s arrived) : t.held = s.events := by
  have back : (fun ev => (EventRow.of ev (arrived ev.id)).json) = id := rfl
  rw [Tables.held, holds.events, List.map_map, Function.comp_def, back, List.map_id]

theorem current (holds : t.Holds s arrived) (ev : Event) :
    t.current ev = (s.current ev).map fun held => .of held (arrived held.id) := by
  rw [Tables.current, holds.events, List.find?_map]
  rfl

theorem put (holds : t.Holds s arrived) {ev : Event} (fresh : ∀ held ∈ s.events, held.id ≠ ev.id)
    (free : ∀ held ∈ s.events, sameSlot held ev = false) (now : Timestamp) :
    (t.put ev now).Holds (s.push ev fresh free) (Function.update arrived ev.id now) where
  events := by
    have others : (s.events.map fun held => EventRow.of held (arrived held.id)) =
        s.events.map fun held => .of held (Function.update arrived ev.id now held.id) :=
      List.map_congr_left fun held member => by rw [Function.update_of_ne (fresh held member)]
    rw [Tables.put, holds.events, others, Store.push, List.map_append, List.map_singleton, Function.update_self]
  tags := by simp [Tables.put, holds.tags, Store.push]
  attachments := by simp [Tables.put, holds.attachments, Store.push]

/-- Where the slot is free, only the id can clash. -/
theorem clashes (holds : t.Holds s arrived) {ev : Event} (free : ∀ held ∈ s.events, sameSlot held ev = false) :
    t.clashes ev = true ↔ ¬ ∀ held ∈ s.events, held.id ≠ ev.id := by
  have vacant : s.current ev = none := by
    refine List.find?_eq_none.mpr fun held member => ?_
    rw [sameSlot_comm, free held member]
    exact Bool.false_ne_true
  rw [Tables.clashes, holds.current, vacant, holds.events]
  simp [EventRow.of]

/-- An insert does to the tables what it does to the store. -/
theorem insert (holds : t.Holds s arrived) (ev : Event) (now : Timestamp) :
    (t.insert ev now).2 = (s.insert ev).2 ∧ ∃ arrived', (t.insert ev now).1.Holds (s.insert ev).1 arrived' := by
  by_cases fleeting : slot ev = .ephemeral
  · rw [Tables.insert, Store.insert, if_pos fleeting, if_pos fleeting]
    exact ⟨rfl, arrived, holds⟩
  cases found : s.current ev with
  | some held =>
    have out : t.insert ev now =
        if held.id = ev.id then (t, .duplicate)
        else if replaces ev held = false then (t, .stale)
        else if (t.delete held.id).clashes ev then (t, .duplicate)
        else ((t.delete held.id).put ev now, .new) := by
      rw [Tables.insert, if_neg fleeting, holds.current, found]
      rfl
    rw [out, s.insert_found fleeting found]
    by_cases same : held.id = ev.id
    · rw [if_pos same, if_pos same]
      exact ⟨rfl, arrived, holds⟩
    rw [if_neg same, if_neg same]
    by_cases weaker : replaces ev held = false
    · rw [if_pos weaker, if_pos weaker]
      exact ⟨rfl, arrived, holds⟩
    rw [if_neg weaker, if_neg weaker]
    -- The row in its slot has another id, so that the id is free after it went if it was before.
    have ids : (∀ row ∈ (s.keep fun row => row.id ≠ held.id).events, row.id ≠ ev.id) ↔
        ∀ row ∈ s.events, row.id ≠ ev.id := by
      simp only [Store.keep, List.mem_filter, decide_eq_true_eq]
      refine ⟨fun free row member taken => ?_, fun free row member => free row member.1⟩
      exact free row ⟨member, fun own => same (own.symm.trans taken)⟩ taken
    have clash := (holds.delete held.id).clashes (Store.free_of_current found)
    rw [ids] at clash
    by_cases fresh : ∀ row ∈ s.events, row.id ≠ ev.id
    · rw [dif_pos fresh, if_neg (by simpa using fun clashes => clash.mp clashes fresh)]
      exact ⟨rfl, _, (holds.delete held.id).put (ids.mpr fresh) (Store.free_of_current found) now⟩
    · rw [dif_neg fresh, if_pos (clash.mpr fresh)]
      exact ⟨rfl, arrived, holds⟩
  | none =>
    have out : t.insert ev now = if t.clashes ev then (t, .duplicate) else (t.put ev now, .new) := by
      rw [Tables.insert, if_neg fleeting, holds.current, found]
      rfl
    rw [out, s.insert_vacant fleeting found]
    have clash := holds.clashes (Store.free_of_none found)
    by_cases fresh : ∀ row ∈ s.events, row.id ≠ ev.id
    · rw [dif_pos fresh, if_neg (by simpa using fun clashes => clash.mp clashes fresh)]
      exact ⟨rfl, _, holds.put fresh (Store.free_of_none found) now⟩
    · rw [dif_neg fresh, if_pos (clash.mpr fresh)]
      exact ⟨rfl, arrived, holds⟩

theorem remove (holds : t.Holds s arrived) (ids : List EventId) : (t.remove ids).Holds (s.remove ids) arrived := by
  induction ids generalizing t s with
  | nil =>
    have whole : s.remove [] = s := by
      obtain ⟨events, _, _⟩ := s
      simp [Store.remove, Store.keep]
    rw [whole]
    exact holds
  | cons id rest ih =>
    have first : s.remove (id :: rest) = (s.keep fun ev => ev.id ≠ id).remove rest := by
      simp [Store.remove, Store.keep, List.filter_filter, Bool.and_comm]
    rw [first]
    exact ih (holds.delete id)

end Tables.Holds

/-! ### Whole runs -/

/-- What is done to the store: an event in, or events out. -/
inductive TableOp where
  | insert (ev : Event) (now : Timestamp)
  | remove (ids : List EventId)

def TableOp.on (t : Tables) : TableOp → Tables
  | .insert ev now => (t.insert ev now).1
  | .remove ids => t.remove ids

def TableOp.onStore (s : Store) : TableOp → Store
  | .insert ev _ => (s.insert ev).1
  | .remove ids => s.remove ids

/-- The tables after these, from when there was nothing. -/
def Tables.run (ops : List TableOp) : Tables := ops.foldl TableOp.on {}

/-- After any inserts and removals the tables hold what the store does. -/
theorem Tables.holds_run (ops : List TableOp) :
    ∃ arrived, (Tables.run ops).Holds (ops.foldl TableOp.onStore {}) arrived := by
  suffices general : ∀ (t : Tables) (s : Store) (arrived : EventId → Timestamp), t.Holds s arrived →
      ∃ arrived', (ops.foldl TableOp.on t).Holds (ops.foldl TableOp.onStore s) arrived' from
    general {} {} (fun _ => 0) ⟨rfl, rfl, rfl⟩
  induction ops with
  | nil => exact fun t s arrived holds => ⟨arrived, holds⟩
  | cons op rest ih =>
    intro t s arrived holds
    cases op with
    | insert ev now =>
      obtain ⟨_, arrived', after⟩ := holds.insert ev now
      exact ih _ _ arrived' after
    | remove ids => exact ih _ _ arrived (holds.remove ids)

end Tables

end HitEnter.Node
