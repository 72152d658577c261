import HitEnter.Lib.Budget
import HitEnter.Node.Grants
import HitEnter.Node.Tables

/-! The files a node keeps: those of its own that a message still carries, then of the
others the most recently used, while they fit. -/

namespace HitEnter.Node

open Wire Lib.Budget

/-- A row of the table of uses: when a file was last used, and whether it is ours. -/
structure BlobUse where
  lastUsed : ℤ
  mine : Bool

/-- A use of a file, with the time of it. -/
structure Touch where
  hash : String
  mine : Bool
  date : Timestamp

abbrev BlobUses := BTreeMap String BlobUse

/-- Records a use; `mine` once set stays set. -/
def touchBlob (uses : BlobUses) (touch : Touch) : BlobUses :=
  uses.insert touch.hash ⟨column touch.date, touch.mine || (uses[touch.hash]?).any BlobUse.mine⟩

/-- A file some held message carries, as the grouped rows have it. -/
structure FileRow where
  hash : String
  size : ℤ
  use : Option BlobUse

/-- A size, as a `u64`. -/
def sizeOf (size : ℤ) : ℕ := if size < 0 then 2 ^ 64 - 1 else size.toNat

namespace Tables

/-- The hashes of the files that are carried. -/
def carriedHashes (t : Tables) : List String := (t.attachments.map fun row => row.2.1).dedup

/-- `MAX(a.size)`, of the rows of one hash. -/
def maxSize (t : Tables) (hash : String) : ℤ :=
  (((t.attachments.filter fun row => row.2.1 = hash).map fun row => row.2.2).max?).getD 0

def fileRow (t : Tables) (uses : BlobUses) (hash : String) : FileRow := ⟨hash, t.maxSize hash, uses[hash]?⟩

/-- `attachments` joined with the uses, `GROUP BY a.hash`. -/
def fileRows (t : Tables) (uses : BlobUses) : List FileRow := t.carriedHashes.map (t.fileRow uses)

def fileSize (t : Tables) (hash : String) : ℕ := sizeOf (t.maxSize hash)

end Tables

namespace FileRow

def mine (row : FileRow) : Bool := row.use.any BlobUse.mine

def bytes (row : FileRow) : ℕ := sizeOf row.size

/-- May `a` come before `b` in `ORDER BY mine DESC, last_used DESC`? -/
def before (a b : FileRow) : Bool :=
  match a.use, b.use with
  | _, none => true
  | none, some _ => false
  | some u, some v => (u.mine && !v.mine) || (u.mine == v.mine && v.lastUsed ≤ u.lastUsed)

end FileRow

/-- What is used so far, and what is kept. -/
def keepStep (cap : ℕ) (acc : ℕ × List String) (row : FileRow) : ℕ × List String :=
  let used := min (acc.1 + row.bytes) (2 ^ 64 - 1)
  if row.mine = true ∨ used ≤ cap then (used, acc.2 ++ [row.hash]) else acc

/-- What is kept of the rows, as they come. -/
def keepFiles (cap : ℕ) (rows : List FileRow) : List String := (rows.foldl (keepStep cap) (0, [])).2

/-- An answer of `blobs_to_keep`: of the rows, in some order that the query may give them in. -/
def BlobsToKeep (t : Tables) (uses : BlobUses) (cap : ℕ) (kept : List String) : Prop :=
  ∃ rows : List FileRow, rows.Perm (t.fileRows uses) ∧ rows.Pairwise (fun a b => a.before b = true) ∧
    kept = keepFiles cap rows

theorem keepStep_greedy (cap used : ℕ) (kept : List String) (rows : List FileRow) :
    (rows.foldl (keepStep cap) (used, kept)).2 =
      kept ++ (greedy FileRow.mine FileRow.bytes cap (2 ^ 64 - 1) used rows).map FileRow.hash := by
  induction rows generalizing used kept with
  | nil => simp [greedy]
  | cons row rest ih =>
    rw [List.foldl_cons, keepStep, greedy]
    split
    · rw [ih, List.map_cons, List.append_assoc, List.singleton_append]
    · exact ih used kept

/-! ### What is carried, and whose it is -/

/-- Does the message carry the file? -/
def carries (ev : Event) (hash : String) : Prop :=
  ev.kind = chatMessage ∧ ∃ file ∈ (attachmentsOf ev).getD [], file.hash = hash

theorem mem_attachmentRows {ev : Event} {hash : String} :
    (∃ size, (hash, size) ∈ attachmentRows ev) ↔ carries ev hash := by
  unfold attachmentRows carries
  split
  · rename_i kind
    simp [kind, eq_comm]
  · rename_i other
    simp [other]

/-- A file is listed if and only if some held message carries it. -/
theorem mem_carriedHashes [NostrEvents] (ops : List TableOp) {hash : String} :
    hash ∈ (Tables.run ops).carriedHashes ↔ ∃ ev ∈ (Tables.run ops).held, carries ev hash := by
  obtain ⟨arrived, holds⟩ := Tables.holds_run ops
  rw [holds.held, Tables.carriedHashes, List.mem_dedup, holds.attachments]
  simp only [← mem_attachmentRows, List.mem_map, List.mem_flatMap]
  constructor
  · rintro ⟨_, ⟨ev, held, ⟨_, size⟩, listed, rfl⟩, rfl⟩
    exact ⟨ev, held, size, listed⟩
  · rintro ⟨ev, held, size, listed⟩
    exact ⟨_, ⟨ev, held, _, listed, rfl⟩, rfl⟩

/-- What the uses so far leave in the table. -/
def usesOf (touches : List Touch) : BlobUses := touches.foldl touchBlob ∅

theorem touchBlob_mine (uses : BlobUses) (touch : Touch) (hash : String) :
    ((touchBlob uses touch)[hash]?).any BlobUse.mine =
      ((touch.hash == hash && touch.mine) || (uses[hash]?).any BlobUse.mine) := by
  unfold touchBlob
  rw [Std.ExtTreeMap.getElem?_insert]
  by_cases same : touch.hash = hash
  · simp [same]
  · simp [same]

/-- A file is ours if and only if we used it as ours at some time. -/
theorem usesOf_mine (touches : List Touch) (hash : String) :
    ((usesOf touches)[hash]?).any BlobUse.mine = touches.any fun touch => touch.hash == hash && touch.mine := by
  suffices general : ∀ uses : BlobUses, ((touches.foldl touchBlob uses)[hash]?).any BlobUse.mine =
      ((touches.any fun touch => touch.hash == hash && touch.mine) || (uses[hash]?).any BlobUse.mine) by
    rw [usesOf, general]
    simp
  induction touches with
  | nil => simp
  | cons touch rest ih =>
    intro uses
    rw [List.foldl_cons, ih, touchBlob_mine, List.any_cons, Bool.or_left_comm, Bool.or_assoc]

/-! ### What is kept -/

/-- Did we use it as ours? -/
def ours (touches : List Touch) (hash : String) : Bool := touches.any fun touch => touch.hash == hash && touch.mine

/-- Was `a` used no less recently than `b`? What was never used comes last. -/
def usedAsLate (uses : BlobUses) (a b : String) : Bool :=
  match uses[a]?, uses[b]? with
  | _, none => true
  | none, some _ => false
  | some u, some v => v.lastUsed ≤ u.lastUsed

/-- Was `a` used more recently than `b`? -/
def usedLater (uses : BlobUses) (a b : String) : Bool := !usedAsLate uses b a

/-- What is kept within a cap: ours that are carried; nothing that is not; no more than the
cap or ours take; and nothing is left out that would fit with ours and what was used as late. -/
structure Keeps (t : Tables) (touches : List Touch) (cap : ℕ) (kept : List String) : Prop where
  own : ∀ hash, (∃ ev ∈ t.held, carries ev hash) → ours touches hash = true → hash ∈ kept
  carried : ∀ hash ∈ kept, ∃ ev ∈ t.held, carries ev hash
  once : kept.Nodup
  room : cap < 2 ^ 64 - 1 → (kept.map t.fileSize).sum ≤
    max cap ((t.carriedHashes.filter (ours touches)).map t.fileSize).sum
  all : 2 ^ 64 - 1 ≤ cap → ∀ hash, (∃ ev ∈ t.held, carries ev hash) → hash ∈ kept
  full : ∀ hash, (∃ ev ∈ t.held, carries ev hash) → hash ∉ kept →
    cap < ((kept.filter fun k => ours touches k || usedAsLate (usesOf touches) k hash).map t.fileSize).sum + t.fileSize hash

theorem keepFiles_eq (cap : ℕ) (rows : List FileRow) : keepFiles cap rows =
    (greedy FileRow.mine FileRow.bytes cap (2 ^ 64 - 1) 0 rows).map FileRow.hash := by
  rw [keepFiles, keepStep_greedy, List.nil_append]

/-- Ours come first. -/
theorem mine_of_before {a b : FileRow} (before : a.before b = true) (mine : b.mine = true) : a.mine = true := by
  unfold FileRow.before at before
  unfold FileRow.mine at *
  cases second : b.use with
  | none => simp [second] at mine
  | some v =>
    cases first : a.use with
    | none => simp [first, second] at before
    | some u =>
      simp only [first, second, Option.any_some, Bool.or_eq_true, Bool.and_eq_true, beq_iff_eq] at before mine ⊢
      rcases before with ⟨own, _⟩ | ⟨same, _⟩
      · exact own
      · exact same.trans mine

section Answer
variable [NostrEvents] {ops : List TableOp} {touches : List Touch} {rows : List FileRow}

/-- What may come before a file is ours, or was used no less recently. -/
theorem used_of_before {a b : String}
    (before : ((Tables.run ops).fileRow (usesOf touches) a).before ((Tables.run ops).fileRow (usesOf touches) b) = true) :
    (ours touches a || usedAsLate (usesOf touches) a b) = true := by
  rw [ours, ← usesOf_mine]
  unfold FileRow.before Tables.fileRow at before
  unfold usedAsLate
  cases second : (usesOf touches)[b]? with
  | none => simp
  | some v =>
    cases first : (usesOf touches)[a]? with
    | none => simp [first, second] at before
    | some u =>
      simp only [first, second, Option.any_some, Bool.or_eq_true, Bool.and_eq_true, Bool.not_eq_true',
        decide_eq_true_eq] at before ⊢
      exact before.imp And.left And.right

variable (perm : rows.Perm ((Tables.run ops).fileRows (usesOf touches)))
include perm

private theorem row_of {row : FileRow} (member : row ∈ rows) :
    ∃ hash ∈ (Tables.run ops).carriedHashes, (Tables.run ops).fileRow (usesOf touches) hash = row := by
  obtain ⟨hash, listed, same⟩ := List.mem_map.mp (perm.subset member)
  exact ⟨hash, listed, same⟩

private theorem mem_rows {hash : String} (carried : ∃ ev ∈ (Tables.run ops).held, carries ev hash) :
    (Tables.run ops).fileRow (usesOf touches) hash ∈ rows :=
  perm.symm.subset (List.mem_map_of_mem ((mem_carriedHashes ops).mpr carried))

private theorem mine_eq {row : FileRow} (member : row ∈ rows) : row.mine = ours touches row.hash := by
  obtain ⟨hash, _, rfl⟩ := row_of perm member
  exact usesOf_mine touches hash

private theorem bytes_eq {row : FileRow} (member : row ∈ rows) : row.bytes = (Tables.run ops).fileSize row.hash := by
  obtain ⟨hash, _, rfl⟩ := row_of perm member
  rfl

private theorem hashes_nodup : (rows.map FileRow.hash).Nodup := by
  refine (perm.map FileRow.hash).nodup_iff.mpr ?_
  have hashes : ((Tables.run ops).fileRows (usesOf touches)).map FileRow.hash = (Tables.run ops).carriedHashes := by
    rw [Tables.fileRows, List.map_map]
    exact List.map_id _
  rw [hashes]
  exact List.nodup_dedup _

/-- Ours among the rows take as much as ours among the files. -/
private theorem sum_ours : ((rows.filter FileRow.mine).map FileRow.bytes).sum =
    (((Tables.run ops).carriedHashes.filter (ours touches)).map (Tables.run ops).fileSize).sum := by
  rw [((perm.filter FileRow.mine).map FileRow.bytes).sum_eq, Tables.fileRows, List.filter_map, List.map_map]
  have same : FileRow.mine ∘ (Tables.run ops).fileRow (usesOf touches) = ours touches :=
    funext fun hash => usesOf_mine touches hash
  rw [same]
  rfl

end Answer

/-- Whatever order the query gives its rows in, this is what is kept. -/
theorem blobsToKeep_keeps [NostrEvents] (ops : List TableOp) (touches : List Touch) (cap : ℕ) (kept : List String)
    (answer : BlobsToKeep (Tables.run ops) (usesOf touches) cap kept) : Keeps (Tables.run ops) touches cap kept := by
  obtain ⟨rows, perm, order, rfl⟩ := answer
  rw [keepFiles_eq]
  have sub : (greedy FileRow.mine FileRow.bytes cap (2 ^ 64 - 1) 0 rows).Sublist rows := greedy_sublist 0 rows
  have sizes : ∀ {part : List FileRow}, (∀ row ∈ part, row ∈ rows) →
      (part.map FileRow.hash).map (Tables.run ops).fileSize = part.map FileRow.bytes := by
    intro part inside
    rw [List.map_map]
    exact List.map_congr_left fun row member => (bytes_eq perm (inside row member)).symm
  constructor
  · intro hash carried own
    have needed : ((Tables.run ops).fileRow (usesOf touches) hash).mine = true :=
      (usesOf_mine touches hash).trans own
    exact List.mem_map_of_mem (mem_greedy_of_must (mem_rows perm carried) needed)
  · intro hash member
    obtain ⟨row, taken, rfl⟩ := List.mem_map.mp member
    obtain ⟨hash, listed, rfl⟩ := row_of perm (sub.subset taken)
    exact (mem_carriedHashes ops).mp listed
  · exact (hashes_nodup perm).sublist (sub.map _)
  · intro small
    rw [sizes fun row member => sub.subset member, ← sum_ours perm]
    exact sum_greedy_le small (order.imp fun before => mine_of_before before)
  · intro wide hash carried
    rw [greedy_all wide]
    exact List.mem_map_of_mem (mem_rows perm carried)
  · intro hash carried out
    obtain ⟨before, after, split⟩ := List.append_of_mem (mem_rows perm carried)
    let row := (Tables.run ops).fileRow (usesOf touches) hash
    let asLate : FileRow → Bool := fun k => ours touches k.hash || usedAsLate (usesOf touches) k.hash hash
    have leftOut : row ∉ greedy FileRow.mine FileRow.bytes cap (2 ^ 64 - 1) 0 rows :=
      fun taken => out (List.mem_map_of_mem taken)
    -- All that was in before it counts.
    have ahead : ∀ k ∈ greedy FileRow.mine FileRow.bytes cap (2 ^ 64 - 1) 0 before, asLate k = true := by
      intro k taken
      have member := (greedy_sublist 0 before).subset taken
      have first : k.before row = true := by
        rw [split, List.pairwise_append] at order
        exact order.2.2 k member row List.mem_cons_self
      obtain ⟨other, _, rfl⟩ := row_of perm (split ▸ List.mem_append_left _ member)
      exact used_of_before first
    have part : (greedy FileRow.mine FileRow.bytes cap (2 ^ 64 - 1) 0 before).Sublist
        ((greedy FileRow.mine FileRow.bytes cap (2 ^ 64 - 1) 0 rows).filter asLate) := by
      have start : greedy FileRow.mine FileRow.bytes cap (2 ^ 64 - 1) 0 before <+:
          greedy FileRow.mine FileRow.bytes cap (2 ^ 64 - 1) 0 rows := by
        rw [split]
        exact greedy_prefix 0 before (row :: after)
      have kept := start.sublist.filter asLate
      rwa [List.filter_eq_self.mpr ahead] at kept
    have less : ((greedy FileRow.mine FileRow.bytes cap (2 ^ 64 - 1) 0 before).map FileRow.bytes).sum ≤
        (((greedy FileRow.mine FileRow.bytes cap (2 ^ 64 - 1) 0 rows).filter asLate).map FileRow.bytes).sum :=
      (part.map FileRow.bytes).sum_le_sum fun _ _ => Nat.zero_le _
    rw [split] at leftOut
    have past : cap < 0 + ((greedy FileRow.mine FileRow.bytes cap (2 ^ 64 - 1) 0 before).map FileRow.bytes).sum +
        row.bytes := lt_of_left_out leftOut
    rw [List.filter_map, sizes fun row member => sub.subset (List.mem_filter.mp member).1]
    change cap < (((greedy FileRow.mine FileRow.bytes cap (2 ^ 64 - 1) 0 rows).filter asLate).map FileRow.bytes).sum + row.bytes
    omega

/-! ### Two files nobody used -/

def hashOf (letter : Char) : String := .ofList (List.replicate 64 letter)

def fileTag (letter : Char) : Tag := ["imeta", "url " ++ blobUrl ++ hashOf letter, "x " ++ hashOf letter, "size 1"]

/-- A message of the founder's with two files. -/
def twoFiles : Event :=
  signed founder 300 chatMessage [Draft.h den, ["channel", "general"], fileTag 'a', fileTag 'b'] ""

def filesTables : Tables := .run [.insert twoFiles 600]

private theorem filesTables_attachments :
    filesTables.attachments = [(twoFiles.id, hashOf 'a', 1), (twoFiles.id, hashOf 'b', 1)] := by
  decide +kernel

/-- There is room for one of the two. -/
private theorem filesTables_answer : BlobsToKeep filesTables (usesOf []) 1 [hashOf 'a'] := by
  refine ⟨filesTables.fileRows (usesOf []), .refl _, ?_, ?_⟩
  all_goals
    unfold Tables.fileRows Tables.carriedHashes Tables.fileRow Tables.maxSize
    rw [filesTables_attachments]
    decide +kernel

theorem filesTables_keeps : Keeps filesTables [] 1 [hashOf 'a'] :=
  blobsToKeep_keeps [.insert twoFiles 600] [] 1 [hashOf 'a'] filesTables_answer

/-- The other, though nothing of ours and nothing used more recently is kept, is left out. -/
theorem filesTables_leftOut : BlobsToKeep filesTables (usesOf []) 1 [hashOf 'a'] ∧
    (∃ ev ∈ filesTables.held, carries ev (hashOf 'b')) ∧ hashOf 'b' ∉ [hashOf 'a'] ∧
    ((([hashOf 'a'].filter fun k => ours [] k || usedLater (usesOf []) k (hashOf 'b')).map filesTables.fileSize).sum +
      filesTables.fileSize (hashOf 'b') ≤ 1) := by
  refine ⟨filesTables_answer, (mem_carriedHashes [.insert twoFiles 600]).mp ?_, by decide +kernel, ?_⟩
  · change hashOf 'b' ∈ filesTables.carriedHashes
    rw [Tables.carriedHashes, filesTables_attachments]
    decide +kernel
  · unfold Tables.fileSize Tables.maxSize
    rw [filesTables_attachments]
    decide +kernel

end HitEnter.Node
