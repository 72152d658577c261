import HitEnter.Group.Unspent
import HitEnter.Node.Converge
import HitEnter.Node.Ending

/-! A sync with a member brings a newcomer to the member's group: what is of the group gets in as
if it were handed over by itself, whatever else comes with it, and what the member does not show
any more its snapshot has spent. -/

namespace HitEnter.Node

open Wire HitEnter.Group Lib.Dialogue Lib.Rounds Lib.Ranks Lib.KeepBest Lib.Json

section Applying
variable [NostrEvents] {g : PublicKey} {events fetched : List Event} {a b node : Inner} {ev other : Event} {now : Timestamp}

/-- A node that is handed a group's events is no further for an event that is none of them. -/
private theorem Handed.aside (handed : Handed g events a) (same : SameFold g a b)
    (apart : ∀ row ∈ b.store.events, ∀ ev ∈ events, row.id = ev.id ∨ sameSlot ev row = true → row ∈ events) : Handed g events b where
  carried := same.carried.trans handed.carried
  folded := same.folded handed.folded
  rows row held read := handed.rows row ((same.rows row read).mp held) read
  readable row held read := handed.readable row ((same.rows row read).mp held) read
  apart := apart

variable [Devices] [Wraps]

/-- Where a row comes from that is not of the group, and is in the way of none of its events. -/
private theorem apart_receive (unique : UniqueIds) (reads : ∀ ev ∈ events, isRead g ev = true)
    (verified : ∀ ev ∈ events, NostrEvents.verify ev = true) (aside : isRead g other = false) (handed : Handed g events node) :
    ∀ row ∈ (node.receive other .fetch now).1.store.events, ∀ ev ∈ events,
      row.id = ev.id ∨ sameSlot ev row = true → row ∈ events := by
  intro row held ev member near
  unfold Inner.receive at held
  split at held
  · rename_i signed
    have plain {row : Event} (grouped : isGroupKind row.kind = true → (groupOf row).isSome = true) (slots : sameSlot ev row = true) :
        isRead g row = true := by
      have kinds : ev.kind = row.kind := by
        simp only [sameSlot, Bool.and_eq_true, beq_iff_eq] at slots
        exact slots.1.1.2
      have group := isGroupKind_of_groupOf (isRead_iff.mp (reads ev member)).1
      rw [sameSlot_comm] at slots
      exact isRead_of_slot slots (grouped (kinds ▸ group)) (reads ev member)
    rcases acceptEvent_stems held with rfl | old | ⟨binding, learned⟩
    · rcases node.acceptEvent_cases row .fetch now with ⟨judgement, booked, passed⟩ | ⟨same, _⟩
      · rcases near with ids | slots
        · rw [unique signed (verified ev member) ids]
          exact member
        · have grouped : isGroupKind row.kind = true → (groupOf row).isSome = true := by
            intro group
            have judged := passed.judged
            rw [Inner.judged_of_not_wrap (groupKind_not_personal group).1] at judged
            obtain ⟨_, _, own, _⟩ := judge_carried judged group
            rw [own]
            rfl
          rw [plain grouped slots] at aside
          cases aside
      · exact handed.apart row (same ▸ held) ev member near
    · exact handed.apart row old ev member near
    · rcases near with ids | slots
      · rw [unique learned (verified ev member) ids]
        exact member
      · have kinds : ev.kind = row.kind := by
          simp only [sameSlot, Bool.and_eq_true, beq_iff_eq] at slots
          exact slots.1.1.2
        exact absurd (kinds.trans binding) (read_kind (reads ev member)).2.2.1.1
  · exact handed.apart row held ev member near

theorem SameFold.receive {source : Source} (aside : isRead g other = false) :
    SameFold g node (node.receive other source now).1 := by
  unfold Inner.receive
  split
  · exact .acceptEvent aside
  · exact .refl node

/-- The events of a group get in among others as they do by themselves. -/
theorem settled_applyFetched (unique : UniqueIds) {clock : ℕ → Timestamp} {stats : SyncStats} {looks : ℕ}
    (fresh : Fresh g events node) (reads : ∀ ev ∈ events, isRead g ev = true)
    (ids : (events.map Event.id).Nodup) (verified : ∀ ev ∈ events, NostrEvents.verify ev = true)
    (dated : ∀ i, ∀ ev ∈ events, ¬ Nostr.add (clock i) maxClockSkew < ev.createdAt)
    (own : ∀ ev, ev ∈ events ↔ ev ∈ fetched ∧ isRead g ev = true) :
    Settled g events (applyFetched clock ⟨node, looks, stats⟩ fetched).node := by
  have received {at_ : Inner × ℕ} {ev : Event} (member : ev ∈ events) : (Inner.take clock at_ ev).1.1 =
        (at_.1.acceptEvent ev .fetch (clock at_.2)).1 ∧
      (Inner.take clock at_ ev).2 = (at_.1.acceptEvent ev .fetch (clock at_.2)).2.accepted := by
    unfold Inner.take Inner.receive
    rw [if_pos (verified ev member)]
    exact ⟨rfl, Verdict.answer_fst _⟩
  have step : ∀ at_ : Inner × ℕ, ∀ ev ∈ sorted applyOrder fetched, Handed g events at_.1 →
      Handed g events (Inner.take clock at_ ev).1.1 := by
    intro at_ ev listed handed
    have among : ev ∈ fetched := (List.perm_insertionSort _ _).mem_iff.mp listed
    cases read : isRead g ev with
    | true =>
      have member := (own ev).mpr ⟨among, read⟩
      rw [(received member).1]
      exact handed.step reads member (dated at_.2 ev member)
    | false => exact handed.aside (.receive read) (apart_receive unique reads verified read handed)
  have still : ∀ (at_ : Inner × ℕ) (ev : Event), (Inner.take clock at_ ev).2 = false →
      (Inner.take clock at_ ev).1.1 = at_.1 := fun _ _ refused => receive_refused refused
  have place := congrArg Prod.fst (place_applyFetched clock ⟨node, looks, stats⟩ fetched)
  change (applyFetched clock ⟨node, looks, stats⟩ fetched).node = (retry (Inner.take clock) (node, looks) _).1.1 at place
  rw [place]
  refine ⟨retry_invariant (s := (node, looks)) step fresh.handed, reads, ids, fun ev member => ?_⟩
  have mark : ∀ at_ : Inner × ℕ, Handed g events at_.1 → (Inner.take clock at_ ev).2 = true →
      Holds (Inner.take clock at_ ev).1.1 ev := by
    intro at_ handed accepted
    rw [(received member).2] at accepted
    rw [(received member).1]
    exact holds_of_accepted handed reads ids member accepted
  have keeps : ∀ at_ : Inner × ℕ, ∀ other ∈ sorted applyOrder fetched, Handed g events at_.1 → Holds at_.1 ev →
      Holds (Inner.take clock at_ other).1.1 ev := by
    intro at_ other listed handed holds
    have among : other ∈ fetched := (List.perm_insertionSort _ _).mem_iff.mp listed
    cases read : isRead g other with
    | true =>
      have here := (own other).mpr ⟨among, read⟩
      rw [(received here).1]
      exact holds.step handed reads member here
    | false =>
      obtain ⟨row, held, near⟩ := holds
      have listed : row ∈ events := by
        rcases near with rfl | ⟨same, _⟩
        · exact member
        · exact handed.apart row held ev member (.inr same)
      exact ⟨row, ((SameFold.receive read).rows row (reads row listed)).mpr held, near⟩
  have listed : ev ∈ sorted applyOrder fetched := (List.perm_insertionSort _ _).mem_iff.mpr ((own ev).mp member).1
  rcases retry_marks (s := (node, looks)) step mark keeps fresh.handed listed with left | holds
  · obtain ⟨at_, same, refused⟩ := retry_left still left
    refine .inr ⟨clock at_.2, dated at_.2 ev member, ?_⟩
    rw [← same, ← (received member).2]
    exact refused
  · exact .inl holds

end Applying

section Reading
variable [NostrEvents] {g person : PublicKey} {peer : Inner} {m : Moment} {s : GroupState} {ev : Event}

/-- A group is at every look what it is, while nothing of it comes in. -/
theorem SameFold.state {a b : Inner} (same : SameFold g a b) (folded : a.groups.state g = a.foldOf g) :
    b.groups.state g = a.groups.state g := by
  have rows : a.foldOf g = b.foldOf g := fold_groupEvents_congr fun row read => (same.rows row read).symm
  rw [same.folded folded, folded, rows]

/-- Of what a fold reads a member, or anyone in a public group, is shown all but what is folded. -/
private theorem mayRead_read {gs : Groups} {now : Timestamp} (read : isRead g ev = true) (state : gs.state g = some s)
    (among : s.isMember person = true ∨ s.isPublic = true) :
    gs.mayRead person ev now = true ↔ s.isFolded ev now = false ∨ s.isMember person = false ∧ GroupState.removes ev person = true := by
  obtain ⟨own, kind⟩ := isRead_iff.mp read
  obtain ⟨notWrap, notPersonal⟩ := group_not_personal own
  have kinds : (foldKinds.all fun kind => !(channelKinds.contains kind || kind == voicePresence)) = true := by decide +kernel
  have outside : GroupState.inChannel ev = false :=
    (Bool.not_eq_true' _).mp (List.all_eq_true.mp kinds ev.kind (List.contains_iff_mem.mp kind))
  simp only [Groups.mayRead, notWrap, notPersonal, own, state, Option.bind_some, Option.any_some, GroupState.mayRead, outside,
    Bool.false_eq_true, ↓reduceIte]
  cases member : s.isMember person with
  | true => simp
  | false =>
    rw [member] at among
    have open_ := among.resolve_left Bool.false_ne_true
    cases GroupState.removes ev person <;> simp [open_]

/-- What is not offered to a member is spent. -/
private theorem spent_of_hidden (state : m.node.groups.state g = some s) (among : s.isMember person = true ∨ s.isPublic = true)
    (held : ev ∈ m.node.store.events) (read : isRead g ev = true) (hidden : ¬ Offered m person ev) : GroupState.Spent s.cutoff ev := by
  have kinds : (foldKinds.all fun kind => carriedKinds.contains kind && kind != deviceBinding) = true := by decide +kernel
  have known := List.all_eq_true.mp kinds ev.kind (List.contains_iff_mem.mp (isRead_iff.mp read).2)
  obtain ⟨carried, notBinding⟩ := Bool.and_eq_true_iff.mp known
  have found : ev ∈ m.node.store.query { kinds := some carriedKinds } := by
    rw [Store.mem_query]
    refine ⟨held, rfl, ?_, rfl⟩
    simpa [Filter.selects] using carried
  have unread : ¬ m.node.groups.mayRead person ev m.now = true := fun reads =>
    hidden (mem_reconcilable.mpr ⟨found, reads, fun binding => absurd binding (bne_iff_ne.mp notBinding)⟩)
  rw [mayRead_read read state among, not_or, Bool.not_eq_false] at unread
  exact GroupState.spent_of_isFolded unread.1

omit [NostrEvents] in
private theorem join_plain [Nostr] {group : PublicKey} {code : Option String} (read : parseAction ev = some (group, .join code)) :
    ev.kind ≠ createInvite := by
  intro invite
  have others : createInvite ≠ putUser ∧ createInvite ≠ removeUser ∧ createInvite ≠ muteUser ∧ createInvite ≠ editMetadata := by decide
  simp only [parseAction, invite, others.1, others.2.1, others.2.2.1, others.2.2.2, ↓reduceIte, Option.bind_eq_bind,
    Option.bind_eq_some_iff, Option.pure_def] at read
  obtain ⟨_, _, _, _, other⟩ := read
  cases expires : firstValue ev "expiration" with
  | none => simp [expires] at other
  | some cell => simp [expires, Option.bind_eq_some_iff] at other

/-- Whoever is shown to have come in came since the snapshot. -/
private theorem join_since {gs : Groups} {now : Timestamp} {group : PublicKey} {code : Option String} (read : isRead g ev = true)
    (state : gs.state g = some s) (among : s.isMember person = true ∨ s.isPublic = true)
    (joins : parseAction ev = some (group, .join code)) (shown : gs.mayRead person ev now = true) : s.cutoff ≤ ev.createdAt := by
  have plain := join_plain joins
  rcases (mayRead_read read state among).mp shown with current | ⟨_, removes⟩
  · simp only [GroupState.isFolded, plain, ↓reduceIte, parseAction_kind joins, Bool.true_and, decide_eq_false_iff_not, not_lt] at current
    exact current
  · simp [GroupState.removes, joins] at removes

end Reading

section Joining
variable [NostrEvents] [Negentropy] [Devices] [Wraps] {g person dialled : PublicKey} {peer node : Inner} {s : GroupState}
  {looks : ℕ → Looks} {events : List Event}

omit [Negentropy] [Devices] [Wraps] in
/-- What the newcomer was given of the group folds to what the member has. -/
private theorem given_core (still : ∀ k, SameFold g peer (looks k 0).node) (folded : peer.groups.state g = peer.foldOf g)
    (state : peer.groups.state g = some s) (among : s.isMember person = true ∨ s.isPublic = true)
    (whole : ∀ ev ∈ peer.store.events, isRead g ev = true → (∀ k, Offered (looks k 0) person ev) → ev ∈ events) :
    (GroupState.fold g ((peer.store.events.filter fun ev => isRead g ev && decide (ev ∈ events)).filter (inFold g))).map
      GroupState.core = some s.core := by
  have folds : GroupState.fold g ((peer.store.groupEvents g).filter (isRead g)) = some s := by
    rw [fold_filter]
    exact folded.symm.trans state
  have ids : ∀ a ∈ (peer.store.groupEvents g).filter (isRead g), ∀ b ∈ (peer.store.groupEvents g).filter (isRead g),
      a.id = b.id → a = b := by
    intro a first b second
    exact peer.store.eq_of_id (mem_groupEvents.mp (List.mem_filter.mp first).1).1 (mem_groupEvents.mp (List.mem_filter.mp second).1).1
  refine GroupState.Rest.core_eq folds ⟨fun ev listed => ?_, fun ev listed => ?_⟩ ids ?_ ?_
  · obtain ⟨given, found⟩ := List.mem_filter.mp listed
    obtain ⟨held, read⟩ := List.mem_filter.mp given
    exact List.mem_filter.mpr ⟨mem_groupEvents.mpr ⟨held, found⟩, (Bool.and_eq_true_iff.mp read).1⟩
  · obtain ⟨here, read⟩ := List.mem_filter.mp listed
    obtain ⟨held, found⟩ := mem_groupEvents.mp here
    by_cases offered : ∀ k, Offered (looks k 0) person ev
    · left
      have given := whole ev held read offered
      exact List.mem_filter.mpr ⟨List.mem_filter.mpr ⟨held, by simp [read, given]⟩, found⟩
    · right
      obtain ⟨k, hidden⟩ := not_forall.mp offered
      exact spent_of_hidden (((still k).state folded).trans state) among (((still k).rows ev read).mpr held) read hidden
  · rw [List.filter_filter, List.filter_congr fun ev _ => Bool.and_comm _ _, ← List.filter_filter]
    exact (action_ids peer.store).sublist (List.filter_sublist.map _)
  · exact peer.store.ids.sublist (((List.filter_sublist.trans List.filter_sublist).trans List.filter_sublist).map _)

/-- A sync with a member whose session keeps up ends well, and leaves a newcomer in the member's group, if it has
kept the invites by which those have come in who came since the snapshot. -/
theorem syncWith_joins (unique : UniqueIds) (exact_ : Negentropy.Exact) {line : Line (ℕ × Session)} {fuel k : ℕ} {serving : Serving}
    {clock : ℕ → Timestamp} {binding : Event}
    (keeps : KeepsUp looks person (negItems { node, binding, now := clock 0 } dialled { kinds := some carriedKinds }) fuel)
    (empty : line.waiting = []) (peer_ : line.peer = (k, .serving serving)) (serves : serving.person = person)
    (room : serving.negs.size < maxNegSessions ∨ serving.negs.contains "sync" = true)
    (signed : peer.Signed) (folded : peer.groups.state g = peer.foldOf g) (state : peer.groups.state g = some s)
    (still : ∀ k, SameFold g peer (looks k 0).node) (among : s.isMember person = true ∨ s.isPublic = true)
    (fresh : Fresh g (peer.store.events.filter (isRead g)) node) (aside : isRead g binding = false)
    (dated : ∀ i, ∀ ev ∈ peer.store.events, isRead g ev = true → ¬ Nostr.add (clock i) maxClockSkew < ev.createdAt)
    (invites : ∀ ev ∈ peer.store.events, ∀ join ∈ peer.store.events, isAction g ev = true → s.cutoff ≤ join.createdAt →
      GroupState.Admits ev join → ev ∈ (syncWith (answered looks) fuel clock node dialled binding line).1.store.events) :
    ∃ stats after, (syncWith (answered looks) fuel clock node dialled binding line).2 = .ok stats after ∧
      ((syncWith (answered looks) fuel clock node dialled binding line).1.groups.state g).map GroupState.core = some s.core := by
  obtain ⟨stats, after, ended⟩ := syncWith_ends exact_ keeps empty peer_ serves room
  obtain ⟨begun, fetched, out, delivered⟩ := syncWith_fetches exact_ ⟨empty, k, serving, peer_, serves⟩ ended
  refine ⟨stats, after, ended, ?_⟩
  rw [out] at invites ⊢
  let applied := applyFetched clock ⟨node, 1, begun⟩ fetched
  let events := peer.store.events.filter fun ev => isRead g ev && decide (ev ∈ fetched)
  have mem_events {ev : Event} : ev ∈ events ↔ ev ∈ peer.store.events ∧ isRead g ev = true ∧ ev ∈ fetched := by
    simp [events, List.mem_filter]
  have lacks : ∀ ev ∈ peer.store.events, isRead g ev = true →
      ¬ Named (negItems { node, binding, now := clock 0 } dialled { kinds := some carriedKinds }) ev.id := by
    rintro ev held read ⟨item, listed, same⟩
    obtain ⟨row, ⟨here, _⟩, rfl⟩ := mem_negItems listed
    exact (fresh.apart row here ev (List.mem_filter.mpr ⟨held, read⟩)).1 same
  have own : ∀ ev, ev ∈ events ↔ ev ∈ fetched ∧ isRead g ev = true := by
    intro ev
    rw [mem_events]
    constructor
    · rintro ⟨_, read, given⟩
      exact ⟨given, read⟩
    · rintro ⟨given, read⟩
      obtain ⟨⟨k, held, _⟩, _⟩ := delivered.shown ev given
      exact ⟨((still k).rows ev read).mp held, read, given⟩
  have settled : Settled g events applied.node := by
    have among {ev : Event} (listed : ev ∈ events) : ev ∈ peer.store.events.filter (isRead g) :=
      List.mem_filter.mpr ⟨(mem_events.mp listed).1, (mem_events.mp listed).2.1⟩
    apply settled_applyFetched unique
    · exact { fresh with apart := fun row held ev listed => fresh.apart row held ev (among listed) }
    · exact fun ev listed => (mem_events.mp listed).2.1
    · exact peer.store.ids.sublist (List.filter_sublist.map _)
    · exact fun ev listed => signed ev (mem_events.mp listed).1
    · exact fun i ev listed => dated i ev (mem_events.mp listed).1 (mem_events.mp listed).2.1
    · exact own
  have last : SameFold g applied.node (applied.node.receive binding .fetch (clock applied.looks)).1 := .receive aside
  rw [last.state settled.handed.folded, settled.handed.folded]
  -- what it was given is the other of the two parts to compare
  rw [← given_core still folded state among fun ev held read offered => delivered.whole ev offered (lacks ev held read)]
  have mem_given {ev : Event} : ev ∈ events.filter (inFold g) ↔ ev ∈ events ∧ inFold g ev = true := List.mem_filter
  have given_ids : ((events.filter (inFold g)).map Event.id).Nodup :=
    peer.store.ids.sublist ((List.filter_sublist.trans List.filter_sublist).map _)
  have all : GroupState.Exhausts g (events.filter (inFold g)) (events.filter (inFold g)) :=
    ⟨fun _ here _ => here, given_ids.sublist (List.filter_sublist.map _), fun _ _ _ offered _ _ _ absent => absurd offered absent⟩
  have held_given {ev : Event} (here : ev ∈ applied.node.store.groupEvents g) (read : isRead g ev = true) :
      ev ∈ events.filter (inFold g) := by
    obtain ⟨held, found⟩ := mem_groupEvents.mp here
    exact mem_given.mpr ⟨settled.handed.rows ev held read, found⟩
  refine settled.exhausts.core_eq all given_ids (fun kind => ?_) (fun w won p named => ?_) fun ev action join listed admits => ?_
  · -- a store holds no two pieces of one slot, so that none of those given yields to another
    rw [scan_pieces, scan_pieces]
    have ids : ∀ a ∈ applied.node.store.groupEvents g, ∀ b ∈ applied.node.store.groupEvents g, a.id = b.id → a = b :=
      fun a first b second => applied.node.store.eq_of_id (mem_groupEvents.mp first).1 (mem_groupEvents.mp second).1
    apply best_congr (pieces_strictTotalOn ids kind)
    intro ev
    rw [List.mem_filter, List.mem_filter]
    refine and_congr_left fun piece => ?_
    simp only [isPiece, Bool.and_eq_true] at piece
    obtain ⟨⟨⟨group, kinds⟩, parsed⟩, _⟩ := piece
    have read : isRead g ev = true := by simp only [isRead, group, kinds, Bool.true_or, Bool.and_self]
    refine ⟨fun here => held_given here read, fun here => ?_⟩
    obtain ⟨member, found⟩ := mem_given.mp here
    refine mem_groupEvents.mpr ⟨(settled.piece_iff member kinds).mpr ⟨parsed, fun other listed _ same => ?_⟩, found⟩
    rw [peer.store.eq_of_sameSlot (mem_events.mp member).1 (mem_events.mp listed).1 same]
    exact replaces_irrefl other
  · rw [mem_scan_creators, mem_scan_creators]
    have reads {ev : Event} (creates : isCreator g ev = true) : isRead g ev = true := by
      simp only [isCreator, isRead, Bool.and_eq_true, Bool.or_eq_true] at creates ⊢
      exact ⟨creates.1, .inl (.inr creates.2)⟩
    constructor
    · rintro ⟨ev, here, creates, by_⟩
      exact ⟨ev, held_given here (reads creates), creates, by_⟩
    · rintro ⟨ev, here, creates, by_⟩
      obtain ⟨member, found⟩ := mem_given.mp here
      obtain ⟨t, folds, owner⟩ := GroupState.fold_namedOwner won
      have kind : ev.kind = createGroup := by simpa using (Bool.and_eq_true_iff.mp creates).2
      have held := settled.creator member kind folds (owner.trans (named.trans (congrArg some by_.symm)))
      exact ⟨ev, mem_groupEvents.mpr ⟨held, found⟩, creates, by_⟩
  · have read := isRead_of_action action
    refine ⟨fun here => held_given here read, fun here => ?_⟩
    obtain ⟨member, found⟩ := mem_given.mp here
    obtain ⟨given, code, joins, opens⟩ := admits
    obtain ⟨there, joined, shown⟩ := mem_events.mp (mem_given.mp listed).1
    obtain ⟨⟨k, _, reads⟩, _⟩ := delivered.shown join shown
    have since := join_since joined (((still k).state folded).trans state) among joins reads
    have kept := invites ev (mem_events.mp member).1 join there action since ⟨given, code, joins, opens⟩
    exact mem_groupEvents.mpr ⟨(last.rows ev read).mp kept, found⟩

end Joining

/-! ### A guest's first sync -/

private theorem readByte_fold (n v : ℕ) :
    ((List.range n).map fun i => UInt8.ofNat (v / 256 ^ i)).foldr (fun byte n => byte.toNat + 256 * n) 0 = v % 256 ^ n := by
  induction n generalizing v with
  | zero => simp [Nat.mod_one]
  | succ n ih =>
    have rest : ((List.range n).map fun i => UInt8.ofNat (v / 256 ^ (i + 1))) = (List.range n).map fun i => UInt8.ofNat (v / 256 / 256 ^ i) := by
      apply List.map_congr_left
      intro i _
      rw [Nat.pow_succ', Nat.div_div_eq_div_mul]
    rw [List.range_succ_eq_map, List.map_cons, List.map_map, List.foldr_cons, Function.comp_def]
    simp only [Nat.succ_eq_add_one]
    rw [rest, ih, Nat.pow_succ', Nat.mod_mul]
    simp

private theorem plainReadIds_cons (id : EventId) (rest : List UInt8) :
    plainReadIds (plainIdBytes id ++ rest) = id :: plainReadIds rest := by
  have length : (plainIdBytes id).length = 32 := by simp [plainIdBytes]
  have size : (plainIdBytes id ++ rest).length / 32 = rest.length / 32 + 1 := by
    rw [List.length_append, length]
    omega
  unfold plainReadIds
  rw [size, List.range_succ_eq_map, List.map_cons, List.map_map]
  refine congrArg₂ List.cons ?_ ?_
  · rw [Nat.mul_zero, List.drop_zero, List.take_left' length]
    have small : id.bytes.toNat < 256 ^ 32 := id.bytes.isLt.trans_eq (by norm_num)
    have value : (plainIdBytes id).foldr (fun byte n => byte.toNat + 256 * n) 0 = id.bytes.toNat := by
      rw [plainIdBytes, readByte_fold, Nat.mod_eq_of_lt small]
    rw [value, BitVec.ofNat_toNat, BitVec.setWidth_eq]
  · apply List.map_congr_left
    intro k _
    have later : (plainIdBytes id ++ rest).drop (32 * (k + 1)) = rest.drop (32 * k) := by
      rw [Nat.mul_succ, Nat.add_comm, ← List.drop_drop, List.drop_left' length]
    simp only [Function.comp_apply, Nat.succ_eq_add_one, later]

private theorem plainReadIds_flatMap (ids : List EventId) : plainReadIds (ids.flatMap plainIdBytes) = ids := by
  induction ids with
  | nil => rfl
  | cons id rest ih => rw [List.flatMap_cons, plainReadIds_cons, ih]

theorem plainNegentropy_exact : Negentropy.Exact := by
  intro ours theirs neg other after answer have_ need have' need' between asked id
  cases between with
  | round _ earlier => exact absurd (congrArg (fun out => out.2.1) (Option.some.inj earlier)) nofun
  | opened here initiate there reconcile =>
    obtain rfl : ours.map Prod.snd = _ := Option.some.inj here
    obtain rfl : theirs.map Prod.snd = _ := Option.some.inj there
    obtain ⟨rfl, _⟩ := Prod.mk.inj (Option.some.inj initiate)
    obtain ⟨_, rfl⟩ := Prod.mk.inj (Option.some.inj reconcile)
    have found := Option.some.inj asked
    simp only [plainReadIds_flatMap, Prod.mk.injEq, true_and, List.nil_append] at found
    obtain ⟨_, rfl, rfl⟩ := found
    simp [Named]

/-- The founder lets the guest into the den. -/
def letIn : List Event := genesis founder den "den" false 100 ++ [(Draft.putUser den guest []).sign founder 110]

def letInStore : Store where
  events := letIn
  ids := by decide +kernel
  slots := by decide +kernel

def letInNode : Inner := Inner.refold { store := letInStore, groups := ({ me := founder } : Groups).carry den } den

/-- The guest has yet to hear of it. -/
def guestsNode : Inner where
  store := blankStore
  groups := ({ me := guest } : Groups).carry den

/-- Only what the founder holds was ever signed. -/
abbrev letInEvents : NostrEvents := { plainEvents with verify := fun ev => decide (ev ∈ letIn) }

/-- The binding that the founder presents. -/
def foundersBinding : Event := signRevocation founder laptop 110

def letInLooks : ℕ → @Looks letInEvents :=
  fun _ _ => @Moment.mk letInEvents letInNode foundersBinding 600

def foundersLine : Line (ℕ × Session) where
  peer := (0, .serving { person := guest, presented := signRevocation guest laptop 110 })

private theorem size_encode (row : List UInt8) : size (Lib.Hex.encode row) = 2 * row.length := by
  have two (n : ℕ) : ((Lib.Hex.write 2 n).map Char.utf8Size).sum = 2 := by
    have length := Lib.Hex.length_bytes_write 2 n
    rw [← size, size_ofList] at length
    exact length
  rw [Lib.Hex.encode, size_ofList]
  induction row with
  | nil => rfl
  | cons byte rest ih =>
    rw [List.flatMap_cons, List.map_append, List.sum_append, two, ih, List.length_cons]
    omega

private theorem size_array_le (items : List String) : size (array items) ≤ (items.map fun item => size item + 1).sum + 2 := by
  have marks : size "[" = 1 ∧ size "," = 1 ∧ size "]" = 1 := by decide +kernel
  have between : size (String.intercalate "," items) ≤ (items.map fun item => size item + 1).sum := by
    induction items with
    | nil => exact (by decide +kernel : size (String.intercalate "," []) = 0).le
    | cons item rest ih =>
      cases rest with
      | nil => simp
      | cons next more =>
        rw [String.intercalate_cons_cons, size_append, size_append, List.map_cons, List.sum_cons]
        omega
  rw [array, size_append, size_append]
  omega

/-- The most that the tags of an event take. -/
private def tagsRoom (ev : Event) : ℕ := (ev.tags.map fun tag => (tag.map fun cell => 6 * size cell + 3).sum + 3).sum + 2

private theorem size_tags_le (ev : Event) : size (array (ev.tags.map fun tag => array (tag.map quote))) ≤ tagsRoom ev := by
  have tag_le (tag : Tag) : size (array (tag.map quote)) + 1 ≤ (tag.map fun cell => 6 * size cell + 3).sum + 3 := by
    have row := size_array_le (tag.map quote)
    have cells : ((tag.map quote).map fun item => size item + 1).sum ≤ (tag.map fun cell => 6 * size cell + 3).sum := by
      rw [List.map_map]
      apply List.sum_le_sum
      intro cell _
      have quoted := size_quote_le cell
      simp only [Function.comp_apply]
      omega
    omega
  have rows : ((ev.tags.map fun tag => array (tag.map quote)).map fun item => size item + 1).sum ≤
      (ev.tags.map fun tag => (tag.map fun cell => 6 * size cell + 3).sum + 3).sum := by
    rw [List.map_map]
    apply List.sum_le_sum
    exact fun tag _ => tag_le tag
  have whole := size_array_le (ev.tags.map fun tag => array (tag.map quote))
  unfold tagsRoom
  omega

private theorem size_plainJson_le (ev : Event) : size (plainJson ev) ≤
    1000 + size ev.createdAt.secs.toNat.repr + size ev.kind.toNat.repr + tagsRoom ev + 6 * size ev.content := by
  have hex (n : ℕ) : size (quote (String.ofList (Lib.Hex.write 64 n))) ≤ 6 * 64 + 2 :=
    (size_quote_le _).trans (by rw [size, Lib.Hex.length_bytes_write])
  have id : size (quote (plainToHex ⟨ev.id.bytes⟩)) ≤ 6 * 64 + 2 := hex _
  have pubkey : size (quote (plainToHex ev.pubkey)) ≤ 6 * 64 + 2 := hex _
  have sig : size (quote (.ofList (List.replicate 128 '0'))) = 130 := by
    have one : escapeSize '0' = 1 := by decide +kernel
    rw [size_quote_replicate, one]
  have tags := size_tags_le ev
  have content := size_quote_le ev.content
  have names : size (quote "id") = 4 ∧ size (quote "pubkey") = 8 ∧ size (quote "created_at") = 12 ∧ size (quote "kind") = 6 ∧
      size (quote "tags") = 6 ∧ size (quote "content") = 9 ∧ size (quote "sig") = 5 := by decide +kernel
  have marks : size "\x7b" = 1 ∧ size ":" = 1 ∧ size "," = 1 ∧ size "\x7d" = 1 := by decide +kernel
  change size (object [("id", quote (plainToHex ⟨ev.id.bytes⟩)), ("pubkey", quote (plainToHex ev.pubkey)),
    ("created_at", ev.createdAt.secs.toNat.repr), ("kind", ev.kind.toNat.repr),
    ("tags", array (ev.tags.map fun tag => array (tag.map quote))), ("content", quote ev.content),
    ("sig", quote (.ofList (List.replicate 128 '0')))]) ≤ _
  simp only [object, List.map_cons, List.map_nil, String.intercalate_cons_cons, String.intercalate_singleton, size_append, sig]
  omega

private theorem letIn_small : ∀ ev ∈ letIn, size ev.createdAt.secs.toNat.repr + size ev.kind.toNat.repr + tagsRoom ev +
    6 * size ev.content ≤ 10000 := by
  decide +kernel

/-- What the founder offers the guest. -/
private def letInIds : List EventId := (@negItems letInEvents (letInLooks 0 0) guest { kinds := some carriedKinds }).map Prod.snd

private theorem letIn_keepsUp : @KeepsUp letInEvents _ _ _ letInLooks guest [] 1 := by
  let _ := letInEvents
  refine ⟨fun k => ?_, fun k ev shown => ?_, fun k ev named => ?_⟩
  · refine ⟨([] : List EventId), ([] : List EventId), [], letInIds, letInIds, letInIds.flatMap plainIdBytes, rfl, rfl, rfl, rfl, ?_, ?_⟩
    · have few : (letInIds.flatMap plainIdBytes).length = 192 := by decide +kernel
      have quoted := size_quote_le (Lib.Hex.encode (letInIds.flatMap plainIdBytes))
      rw [size_encode, few] at quoted
      have marks : size "[" = 1 ∧ size "," = 1 ∧ size "]" = 1 ∧ size (quote "NEG-MSG") = 9 ∧ size (quote "sync") = 6 := by decide +kernel
      apply written_of_small
      intro message said
      rw [List.mem_singleton.mp said]
      simp only [RelayMessage.text, array, String.intercalate_cons_cons, String.intercalate_singleton, size_append, maxFrameBytes]
      omega
    · refine ⟨_, none, _, _, rfl, fun query told => ?_⟩
      cases told
  · have small := letIn_small ev shown.1
    have whole := size_plainJson_le ev
    have sub : size (quote "fetch") ≤ 6 * 5 + 2 := size_quote_le "fetch"
    rw [size_relayEvent, maxFrameBytes]
    change 11 + size (quote "fetch") + size (plainJson ev) ≤ _
    omega
  · obtain ⟨item, listed, _⟩ := named
    cases listed

private theorem letIn_unique : @UniqueIds letInEvents := fun ours theirs same =>
  letInStore.eq_of_id (of_decide_eq_true ours) (of_decide_eq_true theirs) same

private theorem letIn_folded : letInNode.groups.state den = letInNode.foldOf den := by
  decide +kernel

theorem syncWith_delivers_guest :
    let _ := letInEvents
    ∃ stats after begun events, let applied := applyFetched (fun _ => 600) ⟨guestsNode, 1, begun⟩ events
      syncWith (answered letInLooks) 1 (fun _ => 600) guestsNode founder foundersBinding foundersLine =
          ((applied.node.receive foundersBinding .fetch 600).1, .ok stats after) ∧
        Delivered letInLooks guest [] events :=
  @syncWith_delivers letInEvents _ _ _ _ _ _ _ _ _ plainNegentropy_exact (fun _ => 600) guestsNode founder
    foundersBinding letIn_keepsUp rfl rfl rfl (.inl (by decide))

theorem syncWith_joins_guest :
    let _ := letInEvents
    let out := syncWith (answered letInLooks) 1 (fun _ => 600) guestsNode founder foundersBinding foundersLine
    ∃ s : GroupState, s.isMember guest = true ∧ (∃ stats after, out.2 = .ok stats after) ∧
      (out.1.groups.state den).map GroupState.core = some s.core := by
  let _ := letInEvents
  have member : (letInNode.groups.state den).any (·.isMember guest) = true := by decide +kernel
  obtain ⟨s, state, among⟩ := (Option.any_eq_true _ _).mp member
  have fresh : Fresh den (letInNode.store.events.filter (isRead den)) guestsNode :=
    ⟨by decide +kernel, by decide +kernel, by simp [guestsNode, blankStore], by simp [guestsNode, blankStore]⟩
  have dated : ∀ i, ∀ ev ∈ letInNode.store.events, isRead den ev = true →
      ¬ Nostr.add ((fun _ => 600 : ℕ → Timestamp) i) maxClockSkew < ev.createdAt := by
    have early : ∀ ev ∈ letIn, ¬ Nostr.add 600 maxClockSkew < ev.createdAt := by decide +kernel
    exact fun _ ev held _ => early ev held
  have rows : letInNode.store.events = letIn := rfl
  have signed : letInNode.Signed := fun ev held => decide_eq_true (rows ▸ held)
  have closed : ∀ ev ∈ letInNode.store.events, ∀ join, ¬ GroupState.Admits ev join := by
    intro ev held join admits
    obtain ⟨_, _, _, _, invite, _⟩ := admits
    have plain : ∀ ev ∈ letIn, GroupState.inviteOf ev = none := by decide +kernel
    rw [plain ev (rows ▸ held)] at invite
    cases invite
  have outside : isRead den foundersBinding = false := by decide +kernel
  have free : ({ person := guest, presented := signRevocation guest laptop 110 } : Serving).negs.size < maxNegSessions := by decide
  have between : foundersLine.peer = (0, .serving { person := guest, presented := signRevocation guest laptop 110 }) := rfl
  have empty : foundersLine.waiting = [] := rfl
  let begins : Moment := { node := guestsNode, binding := foundersBinding, now := 600 }
  have keeps : KeepsUp letInLooks guest (negItems begins founder { kinds := some carriedKinds }) 1 := letIn_keepsUp
  obtain ⟨stats, after, ended, joined⟩ := syncWith_joins letIn_unique plainNegentropy_exact keeps empty between rfl
    (.inl free) signed letIn_folded state (fun _ => .refl letInNode) (.inl among) fresh
    outside dated fun ev held join _ _ _ admits => absurd admits (closed ev held join)
  exact ⟨s, among, ⟨stats, after, ended⟩, joined⟩

end HitEnter.Node
