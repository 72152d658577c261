import HitEnter.Group.Restart
import HitEnter.Node.Store

/-! A compaction in flight. The four events of a snapshot are stored one by one;
the first raises the cutoff past everything the snapshot folds, while the kinds
still to come speak for the snapshot before it. -/

namespace HitEnter.Node

open Wire HitEnter.Group Lib.KeepBest Lib.Rounds

/-- The same members with the same roles, the same bans, and the same base
permission of everyone. -/
structure SameStanding (s t : GroupState) : Prop where
  members : t.members = s.members
  bans : t.bans = s.bans
  base : ∀ p, t.base p = s.base p

theorem base_congr {s t : GroupState} (owner : t.owner = s.owner) (members : t.members = s.members)
    (roles : t.roles = s.roles) (p : PublicKey) : t.base p = s.base p := by
  simp only [GroupState.base, GroupState.baseOf, GroupState.rolePerms, owner, members, roles]

section Pieces
variable [Nostr] {group : PublicKey} {date : Timestamp} {snap : Snapshot} {ev : Event}

private theorem sign_shape (member : ev ∈ snap.sign group date) : ∃ kind rows,
    ev = signed group date kind (snap.baseTags group ++ rows) "" := by
  simp only [Snapshot.sign, List.mem_cons, List.not_mem_nil, or_false] at member
  rcases member with rfl | rfl | rfl | rfl
  all_goals exact ⟨_, _, rfl⟩

private theorem seqOf_sign (member : ev ∈ snap.sign group date) : seqOf ev = some snap.seq := by
  obtain ⟨kind, rows, rfl⟩ := sign_shape member
  simp [seqOf, signed, firstValue, Snapshot.baseTags]

private theorem slot_state (state : stateKinds.contains ev.kind = true) : slot ev ≠ .ephemeral := by
  simp only [stateKinds, List.contains_iff_mem, List.mem_cons, List.not_mem_nil, or_false] at state
  unfold slot
  rcases state with kind | kind | kind | kind
  all_goals
    rw [kind]
    simp [groupMetadata, groupAdmins, groupMembers, groupRoles]

private theorem kind_of_sameSlot {a b : Event} (same : sameSlot a b = true) :
    a.kind = b.kind ∧ a.pubkey = b.pubkey := by
  simp only [sameSlot, Bool.and_eq_true, beq_iff_eq] at same
  exact ⟨same.1.1.2, same.1.2⟩

/-- A state event is signed by the group it names. -/
private theorem parseState_signer {g : PublicKey} {seq : UInt64} {piece : StatePiece}
    (read : parseState ev = some (g, seq, piece)) : ev.pubkey = g := by
  have own := (parseState_some read).1
  simp only [parseState, own, Option.bind_eq_bind, Option.bind_some] at read
  split at read
  · simp at read
  · rename_i signer
    simp only [Bool.or_eq_true, bne_iff_ne, not_or, not_not] at signer
    exact signer.2

private theorem sign_apart (ids : ((snap.sign group date).map Event.id).Nodup) :
    (snap.sign group date).Pairwise fun a b => a.id ≠ b.id ∧ sameSlot a b = false := by
  have kinds : ((snap.sign group date).map Event.kind).Nodup := by
    change stateKinds.Nodup
    decide
  refine ((List.pairwise_map.mp ids).and (List.pairwise_map.mp kinds)).imp ?_
  rintro a b ⟨id, kind⟩
  exact ⟨id, Bool.eq_false_iff.mpr fun same => kind (kind_of_sameSlot same).1⟩

end Pieces

/-- What a store holds once the first `k` events of a compaction of `s` are in. -/
def inFlight [Nostr] (store : Store) (group : PublicKey) (s : GroupState) (date : Timestamp) (k : Nat) : Store :=
  store.insertAll ((s.toSnapshot.sign group date).take k)

section Flight
variable [Nostr] {group : PublicKey} {store : Store} {s : GroupState} {date : Timestamp}
  (folds : GroupState.fold group store.events = some s)
  (room : s.seq.toNat + 1 < 2 ^ 64)
  (early : ∀ ev ∈ store.events, ev.createdAt < date)
  (readable : ∀ ev ∈ store.events, stateKinds.contains ev.kind = true → (parseState ev).isSome = true)
  (distinct : ((store.events ++ s.toSnapshot.sign group date).map Event.id).Nodup)

include folds in
/-- The pieces held are not ahead of the state they fold to. -/
private theorem seq_held {ev : Event} {kind : Kind} (member : ev ∈ store.events)
    (piece : isPiece group kind ev = true) : ∃ seq, seqOf ev = some seq ∧ seq ≤ s.seq := by
  obtain ⟨first, begun, kept⟩ := (GroupState.fold_reached folds).kept
  obtain ⟨w, invites, won, rfl⟩ := start_winners begun
  obtain ⟨seq, found, most⟩ := seq_le_winners (fun a first b second => store.eq_of_id first second) won member piece
  exact ⟨seq, found, by rw [kept.seq]; exact most⟩

include folds room readable in
/-- Every event of the compaction replaces what its slot holds. -/
private theorem sign_newer : ∀ piece ∈ s.toSnapshot.sign group date, ∀ held ∈ store.events,
    sameSlot piece held = true → replaces piece held = true := by
  intro piece signed held member same
  obtain ⟨kind, author⟩ := kind_of_sameSlot same
  have state := sign_state signed
  have known : stateKinds.contains held.kind = true := kind ▸ state
  have read := readable held member known
  obtain ⟨⟨g, seq, stated⟩, parsed⟩ := Option.isSome_iff_exists.mp read
  have own : g = group := by
    obtain ⟨_, rows, rfl⟩ := sign_shape signed
    exact (parseState_signer parsed).symm.trans author.symm
  obtain ⟨named, found, _⟩ := parseState_some parsed
  have isOne : isPiece group held.kind held = true := by
    simp only [isPiece, named, own, known, read, decide_true, beq_self_eq_true, Bool.and_self]
  obtain ⟨lower, found', most⟩ := seq_held folds member isOne
  exact (replaces_of_seq_lt state kind (seqOf_sign signed) found' (lt_toSnapshot_seq room most)).1

include folds room readable distinct in
private theorem mem_inFlight (k : Nat) (row : Event) : row ∈ (inFlight store group s date k).events ↔
    row ∈ (s.toSnapshot.sign group date).take k ∨
      row ∈ store.events ∧ ∀ piece ∈ (s.toSnapshot.sign group date).take k, sameSlot piece row = false := by
  rw [List.map_append, List.nodup_append] at distinct
  have taken : ∀ piece ∈ (s.toSnapshot.sign group date).take k, piece ∈ s.toSnapshot.sign group date :=
    fun piece member => List.mem_of_mem_take member
  refine Store.mem_insertAll (fun piece member => slot_state (sign_state (taken piece member)))
    ((sign_apart distinct.2.1).sublist (List.take_sublist k _)) (fun piece member row held same => ?_)
    (fun piece member => sign_newer folds room readable piece (taken piece member)) row
  exact distinct.2.2 row.id (List.mem_map_of_mem held) piece.id (List.mem_map_of_mem (taken piece member)) same

include folds room readable distinct in
/-- A row that a compaction dropped was a state event of a kind it has brought. -/
private theorem kept_inFlight {k : Nat} {row : Event} (member : row ∈ store.events)
    (other : ∀ piece ∈ (s.toSnapshot.sign group date).take k, piece.kind ≠ row.kind) :
    row ∈ (inFlight store group s date k).events := by
  refine (mem_inFlight folds room readable distinct k row).mpr (.inr ⟨member, fun piece taken => ?_⟩)
  exact Bool.eq_false_iff.mpr fun same => other piece taken (kind_of_sameSlot same).1

include folds room readable distinct in
/-- A kind that is in speaks for the compaction. -/
private theorem winning_taken {k : Nat} {kind : Kind} {rows : List Tag} {piece : StatePiece}
    (taken : signed group date kind (s.toSnapshot.baseTags group ++ rows) "" ∈
      (s.toSnapshot.sign group date).take k)
    (stated : parsePiece kind (s.toSnapshot.baseTags group ++ rows) = some piece) :
    winning group (inFlight store group s date k).events kind = some (s.toSnapshot.seq, date, piece) := by
  have own := List.mem_of_mem_take taken
  refine winning_signed (sign_state own) stated ?_ fun ev member isOne => ?_
  · exact (mem_inFlight folds room readable distinct k _).mpr (.inl taken)
  · rcases (mem_inFlight folds room readable distinct k ev).mp member with new | ⟨old, _⟩
    · simp only [isPiece, Bool.and_eq_true, beq_iff_eq] at isOne
      exact .inl (eq_of_sign (List.mem_of_mem_take new) own isOne.2)
    · obtain ⟨seq, found, most⟩ := seq_held folds old isOne
      exact .inr ⟨seq, found, lt_toSnapshot_seq room most⟩

include folds room readable distinct in
/-- A kind still to come speaks for the snapshot before. -/
private theorem winning_left {k : Nat} {kind : Kind}
    (left : ∀ piece ∈ (s.toSnapshot.sign group date).take k, piece.kind ≠ kind) :
    winning group (inFlight store group s date k).events kind = winning group store.events kind := by
  have pieces : (scan group (inFlight store group s date k).events).pieces[kind]? =
      (scan group store.events).pieces[kind]? := by
    rw [scan_pieces, scan_pieces]
    refine best_congr (pieces_strictTotalOn (fun a first b second => Store.eq_of_id _ first second) kind)
      fun ev => ?_
    simp only [List.mem_filter, and_congr_left_iff]
    intro isOne
    simp only [isPiece, Bool.and_eq_true, beq_iff_eq] at isOne
    constructor
    · intro member
      rcases (mem_inFlight folds room readable distinct k ev).mp member with new | ⟨old, _⟩
      · exact absurd isOne.2 (left ev new)
      · exact old
    · intro member
      exact kept_inFlight folds room readable distinct member fun piece taken => isOne.2 ▸ left piece taken
  simp only [winning, pieces]

/-- What is held of one kind once the first `k` events are in. -/
private def Brought (k : Nat) (kind : Kind) : Prop := kind ∈ stateKinds.take k

private instance (k : Nat) (kind : Kind) : Decidable (Brought k kind) :=
  inferInstanceAs (Decidable (kind ∈ stateKinds.take k))

private theorem brought_iff (s : GroupState) (group : PublicKey) (date : Timestamp) (k : Nat) (kind : Kind) :
    Brought k kind ↔ ∃ ev ∈ (s.toSnapshot.sign group date).take k, ev.kind = kind := by
  have kinds : ((s.toSnapshot.sign group date).take k).map Event.kind = stateKinds.take k := by
    rw [List.map_take]
    rfl
  rw [Brought, ← kinds, List.mem_map]

include folds room readable distinct in
private theorem winning_inFlight (k : Nat) {kind : Kind} {rows : List Tag} {piece : StatePiece}
    (own : signed group date kind (s.toSnapshot.baseTags group ++ rows) "" ∈ s.toSnapshot.sign group date)
    (stated : parsePiece kind (s.toSnapshot.baseTags group ++ rows) = some piece) :
    winning group (inFlight store group s date k).events kind =
      if Brought k kind then some (s.toSnapshot.seq, date, piece) else winning group store.events kind := by
  split
  · rename_i brought
    obtain ⟨ev, taken, same⟩ := (brought_iff s group date k kind).mp brought
    obtain rfl := eq_of_sign (List.mem_of_mem_take taken) own same
    exact winning_taken folds room readable distinct taken stated
  · rename_i left
    refine winning_left folds room readable distinct fun ev taken same => left ?_
    exact (brought_iff s group date k kind).mpr ⟨ev, taken, same⟩

/-- Which snapshot each part of a mixture is of: the new one, once its kind is in. -/
private structure Mixture (old : Winners) (s : GroupState) (date : Timestamp) (k : Nat) (w : Winners) : Prop where
  cutoff : w.cutoff = date
  namedOwner : w.namedOwner = if Brought k groupAdmins then s.owner else old.namedOwner
  assignments : w.assignments = if Brought k groupAdmins then s.members.filter fun _ held => !held.isEmpty
    else old.assignments
  members : w.members = if Brought k groupMembers then .ofList s.members.keys else old.members
  bans : w.bans = if Brought k groupMembers then s.bans else old.bans
  roles : w.roles = if Brought k groupRoles then s.roles.toList.map (·.2) else old.roles

include early in
private theorem winning_early {kind : Kind} {won : UInt64 × Timestamp × StatePiece}
    (found : winning group store.events kind = some won) : won.2.1 ≤ date := by
  simp only [winning, Option.bind_eq_bind, Option.bind_eq_some_iff, Option.pure_def,
    Option.some.injEq] at found
  obtain ⟨ev, here, ⟨_, _, _⟩, _, rfl⟩ := found
  rw [scan_pieces] at here
  exact (early ev (List.mem_filter.mp (best_mem here)).1).le

include folds room early readable distinct in
/-- From the first event on, a mixture is read, cut off at the new date. -/
private theorem winners_inFlight {old : Winners} (won : winners group store.events = some old) {k : Nat}
    (begun : 0 < k) : ∃ w, winners group (inFlight store group s date k).events = some w ∧ Mixture old s date k w := by
  have sound := Reached.sound (GroupState.fold_reached folds)
  have unmarked : ∀ (p : PublicKey) held, s.toSnapshot.members[p]? = some held → ownerMark ∉ held :=
    fun p held found marked => (sound.held p held found ownerMark marked).2.2 rfl
  have metadata := winning_inFlight folds room readable distinct k (by simp [Snapshot.sign])
    (parsePiece_metadata s.toSnapshot group)
  have admins := winning_inFlight folds room readable distinct k (by simp [Snapshot.sign])
    (parsePiece_admins s.toSnapshot group unmarked)
  have members := winning_inFlight folds room readable distinct k (by simp [Snapshot.sign])
    (parsePiece_members s.toSnapshot group)
  have roles := winning_inFlight folds room readable distinct k (by simp [Snapshot.sign])
    (parsePiece_roles s.toSnapshot group)
  have first : Brought k groupMetadata := by
    obtain ⟨_, rfl⟩ := Nat.exists_eq_succ_of_ne_zero begun.ne'
    simp [Brought, stateKinds]
  unfold winners at won
  split at won
  · rename_i metadata' admins' members' roles'
    cases won
    have second := winning_early early admins'
    have third := winning_early early members'
    have fourth := winning_early early roles'
    have least : (0 : Timestamp) ≤ date := Nat.zero_le _
    rw [if_pos first] at metadata
    rw [admins'] at admins
    rw [members'] at members
    rw [roles'] at roles
    by_cases two : Brought k groupAdmins
    all_goals by_cases three : Brought k groupMembers
    all_goals by_cases four : Brought k groupRoles
    all_goals
      simp only [two, three, four, ↓reduceIte] at admins members roles
      simp only [winners, metadata, admins, members, roles]
      refine ⟨_, rfl, ?_⟩
      constructor
      all_goals simp [two, three, four, least, second, third, fourth, GroupState.toSnapshot]
  · cases won

include folds room readable distinct in
private theorem creators_inFlight (k : Nat) :
    (scan group (inFlight store group s date k).events).creators = (scan group store.events).creators := by
  refine Std.ExtTreeSet.ext_mem fun {p} => ?_
  simp only [mem_scan_creators]
  refine exists_congr fun ev => and_congr_left fun ⟨creates, _⟩ => ?_
  simp only [isCreator, Bool.and_eq_true, beq_iff_eq] at creates
  have apart : ∀ piece ∈ (s.toSnapshot.sign group date).take k, piece.kind ≠ ev.kind := by
    intro piece taken same
    have state := sign_state (List.mem_of_mem_take taken)
    rw [same, creates.2, createGroup_not_state] at state
    cases state
  constructor
  · intro member
    rcases (mem_inFlight folds room readable distinct k ev).mp member with new | ⟨old, _⟩
    · exact absurd rfl (apart ev new)
    · exact old
  · exact fun member => kept_inFlight folds room readable distinct member apart

include folds room early readable distinct in
/-- Everything the history did is behind the cutoff: the fold is the mixture itself. -/
private theorem fold_inFlight {old : Winners} (won : winners group store.events = some old) {k : Nat}
    (begun : 0 < k) : ∃ w invites, Mixture old s date k w ∧
      GroupState.fold group (inFlight store group s date k).events =
        some { w.state group (scan group store.events).creators with invites := invites } := by
  obtain ⟨w, won', mixture⟩ := winners_inFlight folds room early readable distinct won begun
  have idle : GroupState.live group (inFlight store group s date k).events w.cutoff = [] := by
    refine List.eq_nil_iff_forall_not_mem.mpr fun ev member => ?_
    obtain ⟨held, action, _, late⟩ := GroupState.mem_live.mp member
    rcases (mem_inFlight folds room readable distinct k ev).mp held with new | ⟨old, _⟩
    · simp [sign_not_action (List.mem_of_mem_take new)] at action
    · exact absurd (early ev old) (not_lt.mpr (mixture.cutoff ▸ late))
  refine ⟨w, (sortActions (scan group (inFlight store group s date k).events).actions).foldl recordInvite ∅,
    mixture, ?_⟩
  simp only [GroupState.fold, GroupState.start, snapshotState_eq, won', Option.map_some, Option.bind_eq_bind,
    Option.bind_some, Option.pure_def, creators_inFlight folds room readable distinct k]
  change some (runBatches GroupState.attempt Event.createdAt _ (GroupState.live group _ w.cutoff)) = _
  rw [idle]
  rfl

end Flight

section Standing
variable {group : PublicKey} {creators : BTreeSet PublicKey} {s : GroupState} {date : Timestamp} {old w : Winners}

/-- With the metadata alone in, everyone stands where the snapshot before had them. -/
private theorem Mixture.first (mixture : Mixture old s date 1 w) :
    SameStanding (old.state group creators) (w.state group creators) := by
  have namedOwner : w.namedOwner = old.namedOwner := mixture.namedOwner
  have assignments : w.assignments = old.assignments := mixture.assignments
  have members : w.members = old.members := mixture.members
  have roles : w.roles = old.roles := mixture.roles
  have owner : w.owner creators = old.owner creators := by rw [Winners.owner, namedOwner, Winners.owner]
  have roleMap : w.roleMap = old.roleMap := by rw [Winners.roleMap, roles, Winners.roleMap]
  have listed : w.memberMap creators = old.memberMap creators := by
    refine Std.ExtTreeMap.ext_getElem? fun {p} => ?_
    simp only [Winners.getElem?_memberMap, Winners.assigned, owner, members, assignments, roleMap]
  exact ⟨listed, mixture.bans, base_congr owner listed roleMap⟩

/-- With the admins in too, what the mixture takes from the snapshot before is what
the group still has, as long as everyone stands where that snapshot had them. -/
private theorem Mixture.later (mixture : Mixture old s date k w) (admins : Brought k groupAdmins) (sound : Sound s)
    (plain : PlainOwner s) (owner : s.owner = old.owner creators)
    (same : SameStanding s (old.state group creators)) : SameStanding s (w.state group creators) := by
  have owned : w.owner creators = s.owner := by
    rw [Winners.owner, mixture.namedOwner, if_pos admins, owner, Winners.owner, Option.filter_filter]
    simp only [Bool.and_self]
  have roles : w.roleMap = old.roleMap ∨ w.roleMap = s.roles := by
    by_cases last : Brought k groupRoles
    · right
      rw [← restart_roleMap sound date, Winners.roleMap, mixture.roles, if_pos last]
      rfl
    · left
      rw [Winners.roleMap, mixture.roles, if_neg last, Winners.roleMap]
  have members : w.memberMap creators = s.members := by
    refine memberMap_eq sound plain owned (by rw [mixture.assignments, if_pos admins]) (fun p other => ?_)
      fun p held found r member => ?_
    · rw [mixture.members]
      split
      · simp
      · have lookup := old.getElem?_memberMap creators p
        rw [owner] at other
        rw [if_neg other] at lookup
        rw [← same.members, Std.ExtTreeMap.mem_iff_isSome_getElem?]
        change _ ↔ ((old.memberMap creators)[p]?).isSome = true
        rw [lookup]
        split <;> simp [*]
    · rcases roles with here | here
      · rw [← same.members] at found
        rw [here]
        exact ((old.sound group creators).held p held found r member).1
      · rw [here]
        exact (sound.held p held found r member).1
  have bans : w.bans = s.bans := by
    rw [mixture.bans]
    split
    · rfl
    · exact same.bans
  refine ⟨members, bans, fun p => ?_⟩
  rcases roles with here | here
  · rw [← same.base p]
    exact base_congr (owned.trans owner) (members.trans same.members.symm) here p
  · exact base_congr owned members here p

end Standing

/-- A snapshot in flight is the group all along if and only if everyone stands where
the snapshot before it had them. -/
theorem inFlight_standing [Nostr] {group : PublicKey} {store : Store} {s : GroupState} {date : Timestamp}
    (folds : GroupState.fold group store.events = some s) (room : s.seq.toNat + 1 < 2 ^ 64)
    (early : ∀ ev ∈ store.events, ev.createdAt < date)
    (readable : ∀ ev ∈ store.events, stateKinds.contains ev.kind = true → (parseState ev).isSome = true)
    (distinct : ((store.events ++ s.toSnapshot.sign group date).map Event.id).Nodup) :
    (∀ k ≤ 4, ∃ t, GroupState.fold group (inFlight store group s date k).events = some t ∧ SameStanding s t) ↔
      ∃ first, GroupState.start group store.events = some first ∧ SameStanding s first := by
  obtain ⟨first, found, kept⟩ := (GroupState.fold_reached folds).kept
  obtain ⟨old, invites, won, rfl⟩ := start_winners found
  let creators := (scan group store.events).creators
  constructor
  · intro always
    obtain ⟨t, folds', same⟩ := always 1 (by decide)
    obtain ⟨w, _, mixture, folds''⟩ := fold_inFlight folds room early readable distinct won Nat.one_pos
    obtain rfl := Option.some.inj (folds'.symm.trans folds'')
    have one : SameStanding (old.state group creators) (w.state group creators) := mixture.first
    refine ⟨_, found, ⟨one.members.symm.trans same.members, one.bans.symm.trans same.bans, fun p => ?_⟩⟩
    exact (one.base p).symm.trans (same.base p)
  · rintro ⟨first, found', same⟩ k few
    obtain rfl := Option.some.inj (found.symm.trans found')
    have same : SameStanding s (old.state group creators) := ⟨same.members, same.bans, same.base⟩
    rcases Nat.eq_zero_or_pos k with rfl | begun
    · exact ⟨s, folds, ⟨rfl, rfl, fun _ => rfl⟩⟩
    · obtain ⟨w, invites', mixture, folds'⟩ := fold_inFlight folds room early readable distinct won begun
      refine ⟨_, folds', ?_⟩
      suffices standing : SameStanding s (w.state group creators) from ⟨standing.members, standing.bans, standing.base⟩
      rcases Nat.lt_or_ge 1 k with more | single
      · have admins : Brought k groupAdmins := by
          interval_cases k
          all_goals decide
        exact mixture.later admins (Reached.sound (GroupState.fold_reached folds))
          (Reached.plainOwner (GroupState.fold_reached folds)) kept.owner same
      · obtain rfl : k = 1 := le_antisymm single begun
        have one : SameStanding (old.state group creators) (w.state group creators) := mixture.first
        exact ⟨one.members.trans same.members, one.bans.trans same.bans,
          fun p => (one.base p).trans (same.base p)⟩

/-- A store that holds a group as it was founded. -/
def genesisStore : Store where
  events := genesis founder club "club" true 100
  ids := by decide +kernel
  slots := by decide +kernel

theorem inFlight_standing_genesis : ∃ s, GroupState.fold club genesisStore.events = some s ∧
    ∀ k ≤ 4, ∃ t, GroupState.fold club (inFlight genesisStore club s 200 k).events = some t ∧ SameStanding s t := by
  have checked : ((GroupState.start club genesisStore.events).any fun s =>
      (GroupState.live club genesisStore.events s.cutoff).isEmpty && s.seq.toNat + 1 < 2 ^ 64 &&
      ((genesisStore.events ++ s.toSnapshot.sign club 200).map Event.id).Nodup) = true := by
    decide +kernel
  obtain ⟨s, found, passes⟩ := (Option.any_eq_true _ _).mp checked
  simp only [Bool.and_eq_true, decide_eq_true_eq, List.isEmpty_iff] at passes
  obtain ⟨⟨idle, room⟩, distinct⟩ := passes
  have folds : GroupState.fold club genesisStore.events = some s := by
    simp [GroupState.fold, found, idle, runBatches]
  refine ⟨s, folds, ?_⟩
  exact (inFlight_standing folds room (by decide +kernel) (by decide +kernel) distinct).mpr
    ⟨s, found, ⟨rfl, rfl, fun _ => rfl⟩⟩

/-- A store that holds a group someone has joined since. -/
def youngStore : Store where
  events := youngClub
  ids := by decide +kernel
  slots := by decide +kernel

/-- With the first event of a compaction in, the guest is no member. -/
theorem inFlight_guest_gone : ∃ s t, GroupState.fold club youngStore.events = some s ∧
    s.seq.toNat + 1 < 2 ^ 64 ∧ (∀ ev ∈ youngStore.events, ev.createdAt < 200) ∧
    (∀ ev ∈ youngStore.events, stateKinds.contains ev.kind = true → (parseState ev).isSome = true) ∧
    ((youngStore.events ++ s.toSnapshot.sign club 200).map Event.id).Nodup ∧
    GroupState.fold club (inFlight youngStore club s 200 1).events = some t ∧
    s.isMember guest = true ∧ t.isMember guest = false ∧ ¬ SameStanding s t := by
  have checked : ((GroupState.fold club youngStore.events).any fun s => s.seq.toNat + 1 < 2 ^ 64 &&
      ((youngStore.events ++ s.toSnapshot.sign club 200).map Event.id).Nodup && s.isMember guest &&
      (GroupState.fold club (inFlight youngStore club s 200 1).events).any fun t => !t.isMember guest) = true := by
    decide +kernel
  obtain ⟨s, folds, passes⟩ := (Option.any_eq_true _ _).mp checked
  simp only [Bool.and_eq_true, decide_eq_true_eq] at passes
  obtain ⟨⟨⟨room, distinct⟩, here⟩, after⟩ := passes
  obtain ⟨t, folds', gone⟩ := (Option.any_eq_true _ _).mp after
  rw [Bool.not_eq_true'] at gone
  refine ⟨s, t, folds, room, by decide +kernel, by decide +kernel, distinct, folds', here, gone, fun same => ?_⟩
  rw [GroupState.isMember, same.members] at gone
  rw [GroupState.isMember, gone] at here
  cases here

end HitEnter.Node
