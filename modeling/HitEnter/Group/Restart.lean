import HitEnter.Group.Core
import HitEnter.Group.Invariant
import HitEnter.Wire.SnapshotSign

/-! A snapshot of a state starts the fold over from the same group: nothing of the
core is lost or changed on the way through the four events. -/

namespace HitEnter.Group

open Wire Lib.KeepBest Lib.Maps

/-! ### The owner's row -/

/-- The owner holds no role. -/
def PlainOwner (s : GroupState) : Prop :=
  ∀ (p : PublicKey) held, some p = s.owner → s.members[p]? = some held → held = ∅

section Step
variable {s next : GroupState} {actor : PublicKey} {action : Action}

private theorem PlainOwner.moved (plain : PlainOwner s) (moved : GroupState.Moved s actor action next) :
    PlainOwner next := by
  intro p held own found
  rw [moved.rules.owner] at own
  cases moved.standing p with
  | same kept => exact plain p held own (kept ▸ found)
  | gone _ notOwner => exact absurd own notOwner
  | joined _ _ empty => exact Option.some.inj (found.symm.trans empty)
  | put _ checks _ => exact absurd own checks.not_owner

private theorem PlainOwner.batch (plain : PlainOwner s) (changed : GroupState.Batch s actor next) :
    PlainOwner next := by
  intro p kept own found
  rw [changed.owner] at own
  cases here : s.members[p]? with
  | none => simp [changed.stranger p here] at found
  | some held =>
    obtain ⟨kept', found', subset⟩ := changed.member p held here
    obtain rfl : kept = kept' := Option.some.inj (found.symm.trans found')
    obtain rfl := plain p held own here
    refine Std.ExtTreeSet.ext_mem fun {r} => ?_
    simpa using subset r

end Step

private theorem Winners.plainOwner (w : Winners) (group : PublicKey) (creators : BTreeSet PublicKey) :
    PlainOwner (w.state group creators) := by
  intro p held own found
  have isOwner : some p = w.owner creators := own
  have lookup : (w.memberMap creators)[p]? = some held := found
  rw [w.getElem?_memberMap, if_pos isOwner] at lookup
  exact (Option.some.inj lookup).symm

theorem Reached.plainOwner [Nostr] {group : PublicKey} {events : List Event} {s : GroupState}
    (reached : GroupState.Reached group events s) : PlainOwner s := by
  refine reached.invariant ?_ ?_ (fun s _ plain => plain) fun s _ plain => plain
  · intro s found
    obtain ⟨w, invites, _, rfl⟩ := start_winners found
    exact w.plainOwner group (scan group events).creators
  · intro s ev next _ ok plain
    obtain ⟨_, _, _, done⟩ := GroupState.apply_ok ok
    rcases GroupState.act_ok done with moved | ⟨_, _, _, ran⟩
    · exact plain.moved moved
    · exact plain.batch (GroupState.edits_ok ran)

/-! ### The snapshot read back -/

/-- What the four events of a snapshot of `s` state, signed at `date`. -/
def GroupState.restart (s : GroupState) (date : Timestamp) : Winners where
  seq := s.seq + 1
  cutoff := date
  name := s.name
  isPublic := s.isPublic
  newcomerWait := s.newcomerWait
  about := s.about
  channels := s.channels
  overrides := s.overrides
  namedOwner := s.owner
  assignments := s.members.filter fun _ held => !held.isEmpty
  members := .ofList s.members.keys
  bans := s.bans
  mutes := s.mutes
  roles := s.roles.toList.map (·.2)

variable {s : GroupState}

theorem restart_roleMap (sound : Sound s) (date : Timestamp) : (s.restart date).roleMap = s.roles := by
  have row : ∀ entry ∈ s.roles.toList, ∀ built : BTreeMap String RoleDef,
      addRole built entry.2 = built.insert entry.1 entry.2 := by
    rintro ⟨r, role⟩ member built
    have found := Std.ExtTreeMap.mem_toList_iff_getElem?_eq_some.mp member
    obtain rfl := sound.table.named r role found
    have other : role.id ≠ ownerMark := by
      intro marked
      refine sound.table.unmarked (marked ▸ ?_)
      simp [Std.ExtTreeMap.mem_iff_isSome_getElem?, found]
    have sane : GroupState.sanitizedRole role = role := by
      rw [GroupState.sanitizedRole, sound.table.sane _ role found]
    rw [addRole, if_neg other, sane]
  have rows : (s.roles.toList.map (·.2)).foldl addRole ∅ = s.roles := by
    calc (s.roles.toList.map (·.2)).foldl addRole ∅
      _ = s.roles.toList.foldl (fun built entry => built.insert entry.1 entry.2) ∅ := by
        rw [List.foldl_map]
        exact List.foldl_ext _ _ _ fun built entry member => row entry member built
      _ = s.roles := by rw [← Std.ExtTreeMap.insertMany_list_eq_foldl, insertMany_entries]
  have defaulted : s.roles.contains defaultRole = true := sound.defaulted
  rw [Winners.roleMap]
  change withDefaultRole ((s.roles.toList.map (·.2)).foldl addRole ∅) = s.roles
  rw [rows, withDefaultRole, if_pos defaulted]

/-- Members named like those of `s`, with the assignments of `s`, hold what they
hold in `s`, wherever the roles they hold are defined. -/
theorem memberMap_eq (sound : Sound s) (plain : PlainOwner s) {w : Winners} {creators : BTreeSet PublicKey}
    (owner : w.owner creators = s.owner)
    (assignments : w.assignments = s.members.filter fun _ held => !held.isEmpty)
    (listed : ∀ p, some p ≠ s.owner → (p ∈ w.members ↔ p ∈ s.members))
    (defined : ∀ (p : PublicKey) held, s.members[p]? = some held → ∀ r ∈ held, r ∈ w.roleMap) :
    w.memberMap creators = s.members := by
  refine Std.ExtTreeMap.ext_getElem? fun {p} => ?_
  rw [Winners.getElem?_memberMap, owner]
  split
  · rename_i own
    obtain ⟨held, found⟩ := GroupState.isMember_iff.mp (sound.owner p own.symm)
    rw [found, plain p held own found]
  · rename_i other
    have assigned : w.assignments[p]? = (s.members[p]?).filter fun held => !held.isEmpty := by
      rw [assignments]
      exact Std.ExtTreeMap.getElem?_filter'
    cases found : s.members[p]? with
    | none =>
      have absent : p ∉ s.members := by simp [Std.ExtTreeMap.mem_iff_isSome_getElem?, found]
      rw [if_neg ((listed p other).not.mpr absent)]
    | some held =>
      have member : p ∈ s.members := by simp [Std.ExtTreeMap.mem_iff_isSome_getElem?, found]
      rw [if_pos ((listed p other).mpr member), Winners.assigned, assigned, found]
      congr 1
      refine Std.ExtTreeSet.ext_mem fun {r} => ?_
      by_cases empty : held.isEmpty = true
      · rw [Option.filter_some, empty]
        simp [Std.ExtTreeSet.isEmpty_iff.mp empty]
      · simp only [Option.filter_some, empty, Bool.not_false, ↓reduceIte, Option.elim_some,
          Std.ExtTreeSet.mem_filter, Std.ExtTreeSet.get_eq, Bool.and_eq_true, bne_iff_ne]
        constructor
        · rintro ⟨member, _⟩
          exact member
        · intro member
          exact ⟨member, (sound.held p held found r member).2.1, defined p held found r member⟩

private theorem restart_memberMap (sound : Sound s) (plain : PlainOwner s) (date : Timestamp)
    {creators : BTreeSet PublicKey} (owner : (s.restart date).owner creators = s.owner) :
    (s.restart date).memberMap creators = s.members := by
  refine memberMap_eq sound plain owner rfl (fun p _ => ?_) fun p held found r member => ?_
  · change p ∈ Std.ExtTreeSet.ofList s.members.keys compare ↔ _
    simp
  · rw [restart_roleMap sound]
    exact (sound.held p held found r member).1

/-- A fold that starts from a snapshot of `s` starts from the same group. -/
theorem restart_core (sound : Sound s) (plain : PlainOwner s) (group : PublicKey) (date : Timestamp)
    {creators : BTreeSet PublicKey} (signed : ∀ o, s.owner = some o → o ∈ creators) :
    ((s.restart date).state group creators).core = s.core := by
  have owner : (s.restart date).owner creators = s.owner := by
    change s.owner.filter creators.contains = s.owner
    cases own : s.owner with
    | none => rfl
    | some o => simp [signed o own]
  simp only [GroupState.core, Winners.state, restart_roleMap sound, owner,
    restart_memberMap sound plain date owner]
  rfl

/-! ### The snapshot among other events -/

private theorem toNat_max (a b : UInt64) : (max a b).toNat = max a.toNat b.toNat := by
  change (if a ≤ b then b else a).toNat = _
  split <;> rename_i order <;> rw [UInt64.le_iff_toNat_le] at order <;> omega

section Events
variable [Nostr] {group : PublicKey} {events : List Event}

private theorem winning_le {w : Winners} {kind : Kind} (won : winners group events = some w)
    (state : kind ∈ stateKinds) : ∃ piece, winning group events kind = some piece ∧ piece.1 ≤ w.seq := by
  unfold winners at won
  split at won
  · rename_i metadata admins members roles
    cases won
    simp only [stateKinds, List.mem_cons, List.not_mem_nil, or_false] at state
    rcases state with rfl | rfl | rfl | rfl
    · refine ⟨_, metadata, ?_⟩
      simp only [UInt64.le_iff_toNat_le, toNat_max]
      omega
    · refine ⟨_, admins, ?_⟩
      simp only [UInt64.le_iff_toNat_le, toNat_max]
      omega
    · refine ⟨_, members, ?_⟩
      simp only [UInt64.le_iff_toNat_le, toNat_max]
      omega
    · refine ⟨_, roles, ?_⟩
      simp only [UInt64.le_iff_toNat_le, toNat_max]
      omega
  · cases won

/-- No piece is ahead of the snapshot that won. -/
theorem seq_le_winners (distinct : ∀ a ∈ events, ∀ b ∈ events, a.id = b.id → a = b) {w : Winners}
    (won : winners group events = some w) {ev : Event} (member : ev ∈ events) {kind : Kind}
    (piece : isPiece group kind ev = true) : ∃ seq, seqOf ev = some seq ∧ seq ≤ w.seq := by
  have parts := piece
  simp only [isPiece, Bool.and_eq_true, beq_iff_eq, decide_eq_true_eq] at parts
  obtain ⟨⟨⟨_, state⟩, read⟩, rfl⟩ := parts
  obtain ⟨⟨_, seq, _⟩, parsed⟩ := Option.isSome_iff_exists.mp read
  refine ⟨seq, (parseState_some parsed).2.1, ?_⟩
  obtain ⟨found, winner, most⟩ := winning_le won (by simpa using state)
  simp only [winning, Option.bind_eq_bind, Option.bind_eq_some_iff, Option.pure_def, Option.some.injEq] at winner
  obtain ⟨top, kept, ⟨_, topSeq, _⟩, topRead, rfl⟩ := winner
  rw [scan_pieces] at kept
  have own : ev ∈ events.filter (isPiece group ev.kind) := List.mem_filter.mpr ⟨member, piece⟩
  obtain ⟨_, _, same, unbeaten⟩ := best_spec (pieces_strictTotalOn distinct ev.kind) (List.ne_nil_of_mem own)
  obtain rfl := Option.some.inj (kept.symm.trans same)
  have kinds : ev.kind = top.kind := by
    have topPiece := (List.mem_filter.mp (best_mem kept)).2
    simp only [isPiece, Bool.and_eq_true, beq_iff_eq] at topPiece
    exact topPiece.2.symm
  by_contra ahead
  have newer : topSeq < seq := UInt64.not_le.mp fun less => ahead (UInt64.le_trans less most)
  have beats := replaces_of_seq_lt state kinds (parseState_some parsed).2.1 (parseState_some topRead).2.1 newer
  simp [unbeaten ev own] at beats

omit [Nostr] in
/-- A snapshot is ahead of whatever is not ahead of the state it was taken of. -/
theorem lt_toSnapshot_seq (room : s.seq.toNat + 1 < 2 ^ 64) {seq : UInt64} (most : seq ≤ s.seq) :
    seq < s.toSnapshot.seq := by
  have value : (s.seq + 1).toNat = s.seq.toNat + 1 := by
    rw [UInt64.toNat_add]
    exact Nat.mod_eq_of_lt room
  change seq < s.seq + 1
  rw [UInt64.lt_iff_toNat_lt, value]
  exact Nat.lt_succ_of_le (UInt64.le_iff_toNat_le.mp most)

/-- A signed piece ahead of every other is the one that wins. -/
theorem winning_signed {snap : Snapshot} {date : Timestamp} {kind : Kind} {rows : List Tag}
    {piece : StatePiece} (state : stateKinds.contains kind = true)
    (stated : parsePiece kind (snap.baseTags group ++ rows) = some piece)
    (present : signed group date kind (snap.baseTags group ++ rows) "" ∈ events)
    (ahead : ∀ ev ∈ events, isPiece group kind ev = true →
      ev = signed group date kind (snap.baseTags group ++ rows) "" ∨
        ∃ seq, seqOf ev = some seq ∧ seq < snap.seq) :
    winning group events kind = some (snap.seq, date, piece) := by
  have read : parseState (signed group date kind (snap.baseTags group ++ rows) "") =
      some (group, snap.seq, piece) := parseState_signed snap state stated
  obtain ⟨own, seq, _⟩ := parseState_some read
  have kept : (scan group events).pieces[kind]? =
      some (signed group date kind (snap.baseTags group ++ rows) "") := by
    rw [scan_pieces]
    refine best_of_beats (List.mem_filter.mpr ⟨present, ?_⟩) fun ev member => ?_
    · have kinds : stateKinds.contains (signed group date kind (snap.baseTags group ++ rows) "").kind = true := state
      simp only [isPiece, own, kinds, read]
      simp [signed]
    · obtain ⟨here, isOne⟩ := List.mem_filter.mp member
      rcases ahead ev here isOne with same | below
      · exact .inl same
      · obtain ⟨lower, found, less⟩ := below
        simp only [isPiece, Bool.and_eq_true, beq_iff_eq] at isOne
        exact .inr (replaces_of_seq_lt state isOne.2.symm seq found less)
  simp only [winning, kept, Option.bind_eq_bind, Option.bind_some, read]
  rfl

theorem sign_not_action {ev : Event} {snap : Snapshot} {date : Timestamp} (member : ev ∈ snap.sign group date) :
    isAction group ev = false := by
  refine Bool.eq_false_iff.mpr fun action => ?_
  simp only [isAction, Bool.and_eq_true] at action
  have state := sign_state member
  rw [action_not_state action.2] at state
  cases state

/-- Among events that are not ahead of `s`, a snapshot of `s` is the one read. -/
theorem winners_restart (sound : Sound s) (room : s.seq.toNat + 1 < 2 ^ 64) {date : Timestamp}
    (present : ∀ ev ∈ s.toSnapshot.sign group date, ev ∈ events)
    (ahead : ∀ ev ∈ events, ∀ kind, isPiece group kind ev = true →
      ev ∈ s.toSnapshot.sign group date ∨ ∃ seq, seqOf ev = some seq ∧ seq ≤ s.seq) :
    winners group events = some (s.restart date) := by
  have wins : ∀ {kind : Kind} {rows : List Tag} {piece : StatePiece}, stateKinds.contains kind = true →
      signed group date kind (s.toSnapshot.baseTags group ++ rows) "" ∈ s.toSnapshot.sign group date →
      parsePiece kind (s.toSnapshot.baseTags group ++ rows) = some piece →
      winning group events kind = some (s.toSnapshot.seq, date, piece) := by
    intro kind rows piece state own stated
    refine winning_signed state stated (present _ own) fun ev member isOne => ?_
    rcases ahead ev member kind isOne with new | ⟨seq, found, most⟩
    · simp only [isPiece, Bool.and_eq_true, beq_iff_eq] at isOne
      exact .inl (eq_of_sign new own isOne.2)
    · exact .inr ⟨seq, found, lt_toSnapshot_seq room most⟩
  have unmarked : ∀ (p : PublicKey) held, s.toSnapshot.members[p]? = some held → ownerMark ∉ held :=
    fun p held found marked => (sound.held p held found ownerMark marked).2.2 rfl
  have metadata := wins (by decide) (by simp [Snapshot.sign]) (parsePiece_metadata s.toSnapshot group)
  have admins := wins (by decide) (by simp [Snapshot.sign]) (parsePiece_admins s.toSnapshot group unmarked)
  have members := wins (by decide) (by simp [Snapshot.sign]) (parsePiece_members s.toSnapshot group)
  have roles := wins (by decide) (by simp [Snapshot.sign]) (parsePiece_roles s.toSnapshot group)
  have seqs : max (max (max (max 0 (s.seq + 1)) (s.seq + 1)) (s.seq + 1)) (s.seq + 1) = s.seq + 1 := by
    rw [← UInt64.toNat_inj]
    simp [toNat_max]
  have dates : max (max (max (max 0 date) date) date) date = date := by
    have least : (0 : Timestamp) ≤ date := Nat.zero_le _
    simp [least]
  have seq : s.toSnapshot.seq = s.seq + 1 := rfl
  simp only [winners, metadata, admins, members, roles, seq, seqs, dates]
  rfl

end Events

end HitEnter.Group
