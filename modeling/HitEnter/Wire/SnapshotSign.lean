import HitEnter.Lib.Maps
import HitEnter.Wire.Group
import HitEnter.Wire.Plain

/-! A signed snapshot reads back: each of its four events states the part of the
snapshot it was written from. -/

namespace HitEnter.Wire

open Lib.Decimal Lib.Maps

/-- Rows that are each read are read one after the other. -/
private theorem rows_read {step : σ → Tag → Option σ} {row : α → Tag} (next : σ → α → σ)
    (items : List α) (reads : ∀ acc, ∀ x ∈ items, step acc (row x) = some (next acc x)) (acc : σ) :
    (items.map row).foldlM step acc = some (items.foldl next acc) := by
  induction items generalizing acc with
  | nil => rfl
  | cons x rest ih =>
    have later : ∀ acc, ∀ y ∈ rest, step acc (row y) = some (next acc y) :=
      fun acc y member => reads acc y (List.mem_cons_of_mem x member)
    simp [reads acc x List.mem_cons_self, ih later]

/-! ### Metadata and roles -/

@[simp] theorem ChannelKind.parse_asStr (kind : ChannelKind) : ChannelKind.parse kind.asStr = some kind := by
  cases kind <;> rfl

private theorem channels_read (channels : List Channel) (acc : MetadataRows) :
    (channels.map channelTag).foldlM metadataRow acc =
      some { acc with channels := acc.channels ++ channels } := by
  rw [rows_read (fun acc c => { acc with channels := acc.channels ++ [c] }) channels]
  · induction channels generalizing acc with
    | nil => simp
    | cons c rest ih => rw [List.foldl_cons, ih]; simp
  · intro acc c _
    simp [metadataRow, channelTag, parseChannel]

private theorem overrides_read (overrides : List Override) (acc : MetadataRows) :
    (overrides.map overrideTag).foldlM metadataRow acc =
      some { acc with overrides := acc.overrides ++ overrides } := by
  rw [rows_read (fun acc o => { acc with overrides := acc.overrides ++ [o] }) overrides]
  · induction overrides generalizing acc with
    | nil => simp
    | cons o rest ih => rw [List.foldl_cons, ih]; simp
  · intro acc o _
    simp [metadataRow, overrideTag, parseOverride]

private theorem roles_read (roles acc : List RoleDef) :
    (roles.map roleTag).foldlM roleRow acc = some (acc ++ roles) := by
  rw [rows_read (fun acc r => acc ++ [r]) roles]
  · induction roles generalizing acc with
    | nil => simp
    | cons r rest ih => rw [List.foldl_cons, ih]; simp
  · intro acc r _
    simp [roleRow, roleTag, parseRole]

section Sign
variable [Nostr] {group : PublicKey} {date : Timestamp}

theorem parsePiece_metadata (snap : Snapshot) (group : PublicKey) :
    parsePiece groupMetadata (snap.baseTags group ++ snap.metadataTags) =
      some (.metadata snap.name snap.isPublic snap.newcomerWait snap.about snap.channels snap.overrides) := by
  have front : (snap.baseTags group ++ ["name", snap.name] :: visibilityTags snap.isPublic).foldlM metadataRow {} =
      some { name := snap.name, isPublic := snap.isPublic, isPrivate := !snap.isPublic } := by
    cases snap.isPublic <;> rfl
  -- a zero wait and an empty text have no row, and read as themselves all the same
  have wait (acc : MetadataRows) (unset : acc.newcomerWait = 0) :
      (if 0 < snap.newcomerWait then [["newcomer_wait", snap.newcomerWait.toNat.repr]] else []).foldlM
        metadataRow acc = some { acc with newcomerWait := snap.newcomerWait } := by
    split
    · simp [metadataRow]
    · rename_i zero
      have none : snap.newcomerWait = acc.newcomerWait := by
        rw [unset]
        exact UInt32.le_antisymm (UInt32.not_lt.mp zero) UInt32.zero_le
      rw [none]
      rfl
  have about (acc : MetadataRows) (unset : acc.about = "") :
      (if snap.about.isEmpty then [] else [["about", snap.about]]).foldlM metadataRow acc =
        some { acc with about := snap.about } := by
    split
    · rename_i empty
      rw [String.isEmpty_iff.mp empty, ← unset]
      rfl
    · rfl
  have rows : snap.baseTags group ++ snap.metadataTags =
      (snap.baseTags group ++ ["name", snap.name] :: visibilityTags snap.isPublic) ++
        ((if 0 < snap.newcomerWait then [["newcomer_wait", snap.newcomerWait.toNat.repr]] else []) ++
          ((if snap.about.isEmpty then [] else [["about", snap.about]]) ++
            (snap.channels.map channelTag ++ snap.overrides.map overrideTag))) := by
    simp [Snapshot.metadataTags]
  rw [parsePiece, if_pos rfl, rows, List.foldlM_append, front]
  simp only [List.foldlM_append, Option.bind_eq_bind, Option.bind_some, wait, about, channels_read,
    overrides_read, Option.map_some]
  simp

theorem parsePiece_roles (snap : Snapshot) (group : PublicKey) :
    parsePiece groupRoles (snap.baseTags group ++ snap.roles.map roleTag) = some (.roles snap.roles) := by
  have others : groupRoles ≠ groupMetadata ∧ groupRoles ≠ groupAdmins ∧ groupRoles ≠ groupMembers := by decide
  have base : (snap.baseTags group).foldlM roleRow [] = some [] := rfl
  simp [parsePiece, others, List.foldlM_append, base, roles_read]

/-! ### Members and admins -/

theorem parsePiece_members (snap : Snapshot) (group : PublicKey) :
    parsePiece groupMembers (snap.baseTags group ++ snap.memberTags) =
      some (.members (.ofList snap.members.keys) snap.bans snap.mutes) := by
  have others : groupMembers ≠ groupMetadata ∧ groupMembers ≠ groupAdmins := by decide
  have base : (snap.baseTags group).foldlM memberRow {} = some {} := rfl
  have members (acc : MemberRows) : (snap.members.keys.map fun p => ["p", Nostr.toHex p]).foldlM memberRow acc =
      some { acc with members := acc.members.insertMany snap.members.keys } := by
    rw [rows_read (fun acc p => { acc with members := acc.members.insert p }) snap.members.keys]
    · induction snap.members.keys generalizing acc with
      | nil => simp
      | cons p rest ih => rw [List.foldl_cons, ih, Std.ExtTreeSet.insertMany_cons]
    · intro acc p _
      simp [memberRow]
  have bans (acc : MemberRows) : (snap.bans.toList.map fun p => ["ban", Nostr.toHex p]).foldlM memberRow acc =
      some { acc with bans := acc.bans.insertMany snap.bans.toList } := by
    rw [rows_read (fun acc p => { acc with bans := acc.bans.insert p }) snap.bans.toList]
    · induction snap.bans.toList generalizing acc with
      | nil => simp
      | cons p rest ih => rw [List.foldl_cons, ih, Std.ExtTreeSet.insertMany_cons]
    · intro acc p _
      simp [memberRow]
  have mutes (acc : MemberRows) :
      (snap.mutes.toList.map fun entry => ["mute", Nostr.toHex entry.1, entry.2.secs.toNat.repr]).foldlM
        memberRow acc = some { acc with mutes := acc.mutes.insertMany snap.mutes.toList } := by
    rw [rows_read (fun acc entry => { acc with mutes := acc.mutes.insert entry.1 entry.2 }) snap.mutes.toList]
    · induction snap.mutes.toList generalizing acc with
      | nil => simp
      | cons entry rest ih => rw [List.foldl_cons, ih, Std.ExtTreeMap.insertMany_cons]
    · intro acc entry _
      simp [memberRow]
  simp [parsePiece, others, Snapshot.memberTags, List.foldlM_append, base, members, bans, mutes,
    insertMany_keys, insertMany_entries, Std.ExtTreeSet.ofList_eq_insertMany_empty]

/-- The rows of the members that hold a role. -/
private theorem filterMap_assignmentTag (entries : List (PublicKey × BTreeSet String)) :
    entries.filterMap assignmentTag =
      (entries.filter fun entry => !entry.2.isEmpty).map
        fun entry => "p" :: Nostr.toHex entry.1 :: entry.2.toList := by
  induction entries with
  | nil => rfl
  | cons entry rest ih =>
    cases empty : entry.2.isEmpty <;> simp [assignmentTag, empty, ih]

/-- Whoever holds a role is listed with their roles, the owner with the marker. -/
theorem parsePiece_admins (snap : Snapshot) (group : PublicKey)
    (unmarked : ∀ (p : PublicKey) held, snap.members[p]? = some held → ownerMark ∉ held) :
    parsePiece groupAdmins (snap.baseTags group ++ snap.adminTags) =
      some (.admins snap.owner (snap.members.filter fun _ held => !held.isEmpty)) := by
  let holding := snap.members.filter fun _ held => !held.isEmpty
  have owner : (snap.baseTags group ++
      (snap.owner.map fun owner => ["p", Nostr.toHex owner, ownerMark]).toList).foldlM adminRow {} =
        some { owner := snap.owner } := by
    cases snap.owner with
    | none => rfl
    | some o => simp [Snapshot.baseTags, adminRow]
  have assigned (acc : AdminRows) : (snap.members.toList.filterMap assignmentTag).foldlM adminRow acc =
      some { acc with assignments := acc.assignments.insertMany holding.toList } := by
    rw [filterMap_assignmentTag, Std.ExtTreeMap.toList_filter,
      rows_read (fun acc entry => { acc with assignments := acc.assignments.insert entry.1 entry.2 })]
    · induction snap.members.toList.filter fun entry => !entry.2.isEmpty generalizing acc with
      | nil => simp
      | cons entry rest ih => rw [List.foldl_cons, ih, Std.ExtTreeMap.insertMany_cons]
    · rintro acc ⟨p, held⟩ member
      have found := Std.ExtTreeMap.mem_toList_iff_getElem?_eq_some.mp (List.mem_filter.mp member).1
      simp [adminRow, Std.ExtTreeSet.mem_toList, unmarked p held found, ofList_toList]
  simp [parsePiece, show groupAdmins ≠ groupMetadata by decide, Snapshot.adminTags, ← List.append_assoc,
    List.foldlM_append, owner, assigned, insertMany_entries]
  rfl

/-! ### The four events -/

theorem sign_state {snap : Snapshot} {ev : Event} (member : ev ∈ snap.sign group date) :
    stateKinds.contains ev.kind = true := by
  have listed : ev.kind ∈ (snap.sign group date).map Event.kind := List.mem_map_of_mem member
  change ev.kind ∈ stateKinds at listed
  simpa using listed

theorem sign_date {snap : Snapshot} {ev : Event} (member : ev ∈ snap.sign group date) : ev.createdAt = date := by
  have listed : ev.createdAt ∈ (snap.sign group date).map Event.createdAt := List.mem_map_of_mem member
  change ev.createdAt ∈ List.replicate 4 date at listed
  exact List.eq_of_mem_replicate listed

/-- One event of each kind. -/
theorem eq_of_sign {snap : Snapshot} {a b : Event} (first : a ∈ snap.sign group date)
    (second : b ∈ snap.sign group date) (same : a.kind = b.kind) : a = b := by
  have kinds : ((snap.sign group date).map Event.kind).Nodup := by
    change stateKinds.Nodup
    decide
  exact List.inj_on_of_nodup_map kinds first second same

/-- A signed state event names its group and its `seq`, and states what its rows do. -/
theorem parseState_signed {kind : Kind} {rows : List Tag} {piece : StatePiece} (snap : Snapshot)
    (state : stateKinds.contains kind = true)
    (read : parsePiece kind (snap.baseTags group ++ rows) = some piece) :
    parseState (signed group date kind (snap.baseTags group ++ rows) "") =
      some (group, snap.seq, piece) := by
  let ev := signed group date kind (snap.baseTags group ++ rows) ""
  have known : stateKinds.contains ev.kind = true := state
  have own : groupOf ev = some group := by
    rw [groupOf, if_pos known]
    simp [ev, signed, Snapshot.baseTags]
  have seq : seqOf ev = some snap.seq := by
    simp [ev, seqOf, signed, firstValue, Snapshot.baseTags]
  have signer : ev.pubkey = group := rfl
  have stated : parsePiece ev.kind ev.tags = some piece := read
  change parseState ev = _
  simp only [parseState, own, seq, stated, signer, known]
  simp

/-- Each of the four events is read: its group's, at the snapshot's `seq`. -/
theorem parseState_sign {snap : Snapshot} {ev : Event} (member : ev ∈ snap.sign group date)
    (unmarked : ∀ (p : PublicKey) held, snap.members[p]? = some held → ownerMark ∉ held) :
    ∃ piece, parseState ev = some (group, snap.seq, piece) := by
  simp only [Snapshot.sign, List.mem_cons, List.not_mem_nil, or_false] at member
  rcases member with rfl | rfl | rfl | rfl
  · exact ⟨_, parseState_signed snap (by decide) (parsePiece_metadata snap group)⟩
  · exact ⟨_, parseState_signed snap (by decide) (parsePiece_admins snap group unmarked)⟩
  · exact ⟨_, parseState_signed snap (by decide) (parsePiece_members snap group)⟩
  · exact ⟨_, parseState_signed snap (by decide) (parsePiece_roles snap group)⟩

/-! ### Back again -/

/-- A snapshot that says nothing yet. -/
def Snapshot.blank (seq : UInt64) : Snapshot where
  seq := seq
  name := ""
  isPublic := false
  newcomerWait := 0
  about := ""
  channels := []
  overrides := []
  roles := []
  owner := none
  members := ∅
  bans := ∅
  mutes := ∅

/-- What one piece states, put into what the others did. -/
def Snapshot.collect (back : Snapshot) : StatePiece → Snapshot
  | .metadata name isPublic newcomerWait about channels overrides =>
    { back with name, isPublic, newcomerWait, about, channels, overrides }
  | .admins owner assignments => { back with owner, members := back.members.insertMany assignments.toList }
  | .members members bans mutes =>
    { back with members := members.toList.foldl (fun ms p => ms.insertIfNew p ∅) back.members, bans, mutes }
  | .roles roles => { back with roles }

/-- The snapshot that state events of one group and `seq` were written from. -/
def Snapshot.readBack (group : PublicKey) (seq : UInt64) (events : List Event) : Option Snapshot :=
  events.foldlM (fun back ev => do
    let (named, stated, piece) ← parseState ev
    if named = group ∧ stated = seq then some (back.collect piece) else none) (.blank seq)

omit [Nostr] in
/-- Whoever holds a role and then whoever is a member are all the members there are. -/
private theorem members_back (members : BTreeMap PublicKey (BTreeSet String)) :
    (Std.ExtTreeSet.ofList members.keys compare).toList.foldl (fun ms p => ms.insertIfNew p ∅)
      ((∅ : BTreeMap PublicKey (BTreeSet String)).insertMany (members.filter fun _ held => !held.isEmpty).toList) =
        members := by
  rw [insertMany_entries]
  refine Std.ExtTreeMap.ext_getElem? fun {p} => ?_
  rw [getElem?_foldl_insertIfNew, Std.ExtTreeMap.getElem?_filter']
  cases found : members[p]? with
  | none => simp [Std.ExtTreeMap.mem_iff_isSome_getElem?, found]
  | some held =>
    have listed : p ∈ members := by simp [Std.ExtTreeMap.mem_iff_isSome_getElem?, found]
    cases empty : held.isEmpty with
    | false => simp [Option.filter, empty]
    | true =>
      obtain rfl := Std.ExtTreeSet.isEmpty_iff.mp empty
      simp [Option.filter, listed]

/-- A snapshot in which nobody holds a role called like the owner's marker says the same
once signed and read: each of its four events is its group's and its `seq`'s, and together
they state all of it. -/
theorem readBack_sign (snap : Snapshot) (group : PublicKey) (date : Timestamp)
    (unmarked : ∀ (p : PublicKey) held, snap.members[p]? = some held → ownerMark ∉ held) :
    Snapshot.readBack group snap.seq (snap.sign group date) = some snap := by
  simp only [Snapshot.readBack, Snapshot.sign, List.foldlM_cons, List.foldlM_nil,
    parseState_signed snap (by decide) (parsePiece_metadata snap group),
    parseState_signed snap (by decide) (parsePiece_admins snap group unmarked),
    parseState_signed snap (by decide) (parsePiece_members snap group),
    parseState_signed snap (by decide) (parsePiece_roles snap group), Option.bind_eq_bind, Option.bind_some, and_self, if_true, Snapshot.collect, Snapshot.blank, members_back]
  rfl

end Sign

/-- A snapshot with something in every field. -/
def clubSnapshot : Snapshot where
  seq := 3
  name := "club"
  isPublic := true
  newcomerWait := 90
  about := ""
  channels := [{ id := "stage", name := "Stage", kind := .voice, slowmode := 30 }]
  overrides := [{ channel := "stage", role := "mod", allow := 2, deny := 0 }]
  roles := [{ id := "mod", name := "Moderator", perms := 499, position := -7 }]
  owner := some founder
  members := .ofList [(founder, ∅), (steward, Std.ExtTreeSet.ofList ["", "mod"] compare)]
  bans := .ofList [guest]
  mutes := .ofList [(steward, (5000 : Timestamp))]

theorem readBack_sign_clubSnapshot :
    Snapshot.readBack club 3 (clubSnapshot.sign club 1000) = some clubSnapshot := by
  have unmarked : (clubSnapshot.members.toList.all fun entry => !entry.2.contains ownerMark) = true := by decide +kernel
  refine readBack_sign clubSnapshot club 1000 fun p held found marked => ?_
  have entry := List.all_eq_true.mp unmarked (p, held) (Std.ExtTreeMap.mem_toList_iff_getElem?_eq_some.mpr found)
  rw [Std.ExtTreeSet.contains_iff_mem.mpr marked] at entry
  exact Bool.false_ne_true entry

end HitEnter.Wire
