import HitEnter.Group.State
import HitEnter.Wire.Build

/-! What a NIP-29 client is told of a group: the fold in plain tags, signed by the relay it
asks and not by the group's key. -/

namespace HitEnter

open Wire HitEnter.Group

/-- Who holds `role`. -/
def Group.GroupState.holdersOf (s : GroupState) (role : String) : List PublicKey :=
  (s.members.toList.filter fun entry => entry.2.contains role).map Prod.fst

namespace Anchor

def nip29Metadata : Kind := 39000
def nip29Admins : Kind := 39001
def nip29Members : Kind := 39002
def nip29Roles : Kind := 39003

def nip29Kinds : List Kind := [nip29Metadata, nip29Admins, nip29Members, nip29Roles]

/-- What a group without words of its own is said to be about. -/
def plainAbout : String := "A HIT_ENTER group, read through one of its anchors."

section Translate
variable [Nostr]

def dTag (s : GroupState) : Tag := ["d", Nostr.toHex s.id]

def metadataOf (s : GroupState) : Draft where
  kind := nip29Metadata
  tags := [dTag s, ["name", s.name], ["about", if s.about = "" then plainAbout else s.about]] ++ visibilityTags s.isPublic

/-- The owner, and whoever holds a role that is not everybody's. -/
def adminsOf (s : GroupState) : Draft where
  kind := nip29Admins
  tags := dTag s :: (s.owner.toList.map fun owner => ["p", Nostr.toHex owner, "owner"]) ++
    (s.roles.values.filter fun r => r.id != defaultRole).flatMap fun r =>
      (s.holdersOf r.id).map fun p => ["p", Nostr.toHex p, r.name]

def membersOf (s : GroupState) (names : PublicKey → Option String) : Draft where
  kind := nip29Members
  tags := dTag s :: s.members.keys.map fun p => "p" :: Nostr.toHex p :: (names p).toList

def rolesOf (s : GroupState) : Draft where
  kind := nip29Roles
  tags := dTag s :: s.roles.values.map fun r => ["role", r.name]

/-- The four, for one group, signed by `relay`. -/
def translate (relay : PublicKey) (s : GroupState) (names : PublicKey → Option String) (date : Timestamp) : List Event :=
  [metadataOf s, adminsOf s, membersOf s names, rolesOf s].map fun draft => draft.sign relay date

variable {relay : PublicKey} {s : GroupState} {names : PublicKey → Option String} {date : Timestamp} {ev : Event}

theorem translate_signed (told : ev ∈ translate relay s names date) :
    ev.pubkey = relay ∧ ev.kind ∈ nip29Kinds ∧ ev.createdAt = date ∧ Nostr.identifier ev.tags = some (Nostr.toHex s.id) := by
  obtain ⟨draft, listed, rfl⟩ := List.mem_map.mp told
  refine ⟨rfl, ?_, rfl, ?_⟩
  · simp only [List.mem_cons, List.not_mem_nil, or_false] at listed
    rcases listed with rfl | rfl | rfl | rfl <;> simp [nip29Kinds, Draft.sign, signed, metadataOf, adminsOf, membersOf, rolesOf]
  · simp only [List.mem_cons, List.not_mem_nil, or_false] at listed
    rcases listed with rfl | rfl | rfl | rfl <;> exact Nostr.identifier_cons _ _

/-- Who a `p` names, and what else it says. -/
def readP : Tag → Option (PublicKey × List String)
  | "p" :: key :: rest => (Nostr.fromHex key).map (·, rest)
  | _ => none

omit [Nostr] in
private theorem keys_iff {p : PublicKey} : p ∈ s.members.keys ↔ s.isMember p = true := by
  rw [GroupState.isMember, Std.ExtTreeMap.contains_iff_mem]
  exact Std.ExtTreeMap.mem_keys

/-- A client that reads the members reads the group's. -/
theorem members_told (p : PublicKey) :
    (∃ name, (p, name) ∈ ((membersOf s names).tags.filterMap readP)) ↔ s.isMember p = true := by
  have rows : (membersOf s names).tags.filterMap readP = s.members.keys.map fun p => (p, (names p).toList) := by
    have own : readP (dTag s) = none := by simp [readP, dTag]
    unfold membersOf
    rw [List.filterMap_cons_none own, List.filterMap_map]
    have each : readP ∘ (fun p => "p" :: Nostr.toHex p :: (names p).toList) = fun p => some (p, (names p).toList) := by
      funext p
      simp [readP]
    rw [each, ← List.filterMap_eq_map]
    rfl
  rw [rows, ← keys_iff]
  simp

/-- The admins are the owner and the holders of the roles that are not everybody's. -/
theorem admins_told (p : PublicKey) (row : List String) : (p, row) ∈ (adminsOf s).tags.filterMap readP ↔
    s.owner = some p ∧ row = ["owner"] ∨
      ∃ r ∈ s.roles.values, r.id ≠ defaultRole ∧ (∃ held, s.members[p]? = some held ∧ held.contains r.id = true) ∧ row = [r.name] := by
  have holders (role : String) : p ∈ s.holdersOf role ↔ ∃ held, s.members[p]? = some held ∧ held.contains role = true := by
    simp only [GroupState.holdersOf, List.mem_map, List.mem_filter, Prod.exists, exists_and_right, exists_eq_right,
      Std.ExtTreeMap.mem_toList_iff_getElem?_eq_some]
  have own : readP (dTag s) = none := by simp [readP, dTag]
  simp only [adminsOf, List.cons_append, List.filterMap_cons_none own, List.filterMap_append, List.mem_append, List.mem_filterMap,
    List.mem_map, List.mem_flatMap, List.mem_filter, Option.mem_toList, bne_iff_ne]
  constructor
  · rintro (⟨tag, ⟨owner, named, rfl⟩, read⟩ | ⟨tag, ⟨r, ⟨defined, other⟩, q, held, rfl⟩, read⟩)
    · simp only [readP, Nostr.fromHex_toHex, Option.map_some, Option.some.injEq, Prod.mk.injEq] at read
      exact .inl ⟨read.1 ▸ named, read.2.symm⟩
    · simp only [readP, Nostr.fromHex_toHex, Option.map_some, Option.some.injEq, Prod.mk.injEq] at read
      obtain ⟨rfl, rfl⟩ := read
      exact .inr ⟨r, defined, other, (holders r.id).mp held, rfl⟩
  · rintro (⟨owner, rfl⟩ | ⟨r, defined, other, held, rfl⟩)
    · exact .inl ⟨_, ⟨p, owner, rfl⟩, by simp [readP]⟩
    · exact .inr ⟨_, ⟨r, ⟨defined, other⟩, p, (holders r.id).mpr held, rfl⟩, by simp [readP]⟩

end Translate

end Anchor

end HitEnter
