import HitEnter.Group.Leftover
import HitEnter.Node.Refold

/-! Whether two nodes that are handed the same events of a group end in the same group. What a
node refuses it is handed again until nothing more gets in, so that an action is missing only where
a fold with it would not apply it; an invite is judged by the state there is when it comes, and may
be kept by one node and refused by another for good. -/

namespace HitEnter.Node

open Wire HitEnter.Group Lib.Checks Lib.Rounds

namespace Inner

section Hand
variable [NostrEvents] [Devices] [Wraps]

/-- One event handed over, at the time the node's clock shows. -/
def hand (clock : ℕ → Timestamp) (node : Inner × ℕ) (ev : Event) : (Inner × ℕ) × Bool :=
  let out := node.1.acceptEvent ev .fetch (clock node.2)
  ((out.1, node.2 + 1), out.2.accepted)

/-- Everything handed over in order, and what is refused again while anything gets in. -/
def handOver (node : Inner) (clock : ℕ → Timestamp) (events : List Event) : Inner :=
  (retry (hand clock) (node, 0) events).1.1

end Hand

end Inner

section Read
variable [NostrEvents] {g : PublicKey} {ev : Event} {now : Timestamp}

/-- What a fold reads is judged in its group. -/
theorem judge_read {gs : Groups} {slot : Option GroupState} (read : isRead g ev = true)
    (dated : ¬ Nostr.add now maxClockSkew < ev.createdAt) (carried : gs.carried[g]? = some slot) :
    gs.judge ev now =
      if stateKinds.contains ev.kind then (do refuseIf (parseState ev).isNone .notSignedByGroup; return .store)
      else do
        let s ← orRefuse slot .noState
        if ev.kind = createGroup then
          refuseIf (s.namedOwner != some ev.pubkey) .notTheOwner
          return .store
        if ev.kind = createInvite then Groups.judgeInvite s ev now
        else
          refuseIf (s.isFolded ev now) .folded
          return .foldWith g := by
  obtain ⟨own, kind⟩ := isRead_iff.mp read
  obtain ⟨notWrap, notPersonal⟩ := group_not_personal own
  have known : (foldKinds.all fun kind => carriedKinds.contains kind &&
      (stateKinds.contains kind || kind == createGroup || actionKinds.contains kind)) = true := by
    decide +kernel
  have of_kind := List.all_eq_true.mp known ev.kind (List.contains_iff_mem.mp kind)
  obtain ⟨known, member⟩ := Bool.and_eq_true_iff.mp of_kind
  simp only [Groups.judge, Groups.judgeInGroup, known, dated, notWrap, notPersonal, own, carried, Bool.not_true,
    decide_false, refuseIf_false_bind, orRefuse_some_bind, Bool.false_eq_true, ↓reduceIte]
  cases state : stateKinds.contains ev.kind with
  | true => rfl
  | false =>
    cases slot with
    | none => rfl
    | some s =>
      by_cases create : ev.kind = createGroup
      · simp only [create, ↓reduceIte]
      · have acts : actionKinds.contains ev.kind = true := by
          rw [state, beq_false_of_ne create] at member
          exact member
        simp only [create, acts, ↓reduceIte]

omit [NostrEvents] in
/-- What a fold reads is kept. -/
theorem slot_read [Nostr] (read : isRead g ev = true) : slot ev ≠ .ephemeral := by
  have kinds : (foldKinds.all fun kind => !decide (20000 ≤ kind ∧ kind < 30000)) = true := by decide +kernel
  have range := List.all_eq_true.mp kinds ev.kind (List.contains_iff_mem.mp (isRead_iff.mp read).2)
  have plain : ¬ (20000 ≤ ev.kind ∧ ev.kind < 30000) := of_decide_eq_false ((Bool.not_eq_true' _).mp range)
  unfold slot
  rw [if_neg plain]
  split
  · exact Slot.noConfusion
  · split
    · exact Slot.noConfusion
    · exact Slot.noConfusion

variable {node : Inner} {source : Source}

variable (now node source) in
/-- What a fold reads is let in if it is judged well and, an action, would be applied. -/
theorem acceptEvent_read [Devices] [Wraps] (read : isRead g ev = true) :
    (∃ judgement, node.groups.judge ev now = .ok judgement ∧ node.applies ev judgement = true ∧
        node.acceptEvent ev source now =
          (if (node.store.insert ev).2 = .new then ((node.insert ev now).1.refold g).purgeSilenced g else (node.insert ev now).1,
            .stored (node.store.insert ev).2)) ∨
      (∀ judgement, node.groups.judge ev now = .ok judgement → node.applies ev judgement = false) ∧
        (node.acceptEvent ev source now).1 = node ∧ (node.acceptEvent ev source now).2.accepted = false := by
  obtain ⟨changes, firm, ⟨notBinding, notWrap⟩, notDeletion, notRemoval, notList⟩ := read_kind read
  have own := (isRead_iff.mp read).1
  have notMessage : ev.kind ≠ chatMessage := by
    intro message
    rw [message] at firm
    exact absurd firm (by decide)
  have judging : node.judged ev source now = node.groups.judge ev now := Inner.judged_of_not_wrap notWrap
  cases judged : node.groups.judge ev now with
  | error refusal =>
    rw [judged] at judging
    exact .inr ⟨by simp, by simp [Inner.acceptEvent, judging], by simp [Inner.acceptEvent, judging, Verdict.accepted]⟩
  | ok judgement =>
    rw [judged] at judging
    cases applied : node.applies ev judgement with
    | false =>
      refine .inr ⟨fun other same => ?_, ?_, ?_⟩
      · rw [← Except.ok.inj same]
        exact applied
      · simp [Inner.acceptEvent, judging, applied]
      · simp [Inner.acceptEvent, judging, applied, Verdict.accepted]
    | true =>
      refine .inl ⟨judgement, rfl, applied, ?_⟩
      have undeleted : node.isDeleted ev = false := by simp only [Inner.isDeleted, firm, Bool.false_and]
      have unremoved : node.isRemoved ev = false := by simp only [Inner.isRemoved, firm, Bool.false_and]
      have spaced : node.spaced ev = none := if_neg notMessage
      rw [(Inner.Passed.mk judging applied (Inner.bookBinding_of_other notBinding) undeleted unremoved spaced).out]
      have how : (node.insert ev now).2 = (node.store.insert ev).2 := rfl
      rw [how]
      by_cases new : (node.store.insert ev).2 = .new
      · simp only [Inner.follow, new, notDeletion, notRemoval, notWrap, notList, own, changes, ne_eq, not_true_eq_false,
          ↓reduceIte]
      · simp only [Inner.follow, new, ne_eq, not_false_eq_true, ↓reduceIte]

/-- What a fold reads is never purged. -/
theorem mem_purgeSilenced {row : Event} (read : isRead g row = true) :
    row ∈ (node.purgeSilenced g).store.events ↔ row ∈ node.store.events := by
  unfold Inner.purgeSilenced Inner.remove
  refine Store.mem_remove.trans (and_iff_left_of_imp fun held listed => ?_)
  obtain ⟨span, _, named⟩ := List.mem_flatMap.mp listed
  unfold Store.authoredIn at named
  split at named
  · cases named
  · obtain ⟨other, found, same⟩ := List.mem_map.mp named
    obtain ⟨held', _, fits, _⟩ := Store.mem_query.mp found
    obtain rfl := node.store.eq_of_id held' held same
    have said : deletableKinds.contains other.kind = true := by
      simp only [Filter.inGroup, Filter.selects, Bool.and_eq_true, Option.all_some] at fits
      exact fits.1.1.1.2
    rw [(read_kind read).2.1] at said
    cases said

/-- A group folds to the same before a purge and after. -/
theorem foldOf_purgeSilenced : (node.purgeSilenced g).foldOf g = node.foldOf g :=
  fold_groupEvents_congr fun _ read => mem_purgeSilenced read

end Read

/-- A node that carries a group and holds nothing of it that a fold reads, nor anything with the id or in
the slot of one of `events`. -/
structure Fresh [Nostr] (g : PublicKey) (events : List Event) (node : Inner) : Prop where
  carried : node.groups.carried.contains g = true
  unread : node.groups.state g = none
  bare : ∀ row ∈ node.store.events, isRead g row = false
  apart : ∀ row ∈ node.store.events, ∀ ev ∈ events, row.id ≠ ev.id ∧ sameSlot ev row = false

/-- A node while it is handed `events`: whatever it holds that a fold of the group reads, or that is in
the way of one of them, is one of them, its state pieces can be read, and the group is folded. -/
structure Handed [Nostr] (g : PublicKey) (events : List Event) (node : Inner) : Prop where
  carried : node.groups.carried.contains g = true
  folded : node.groups.state g = node.foldOf g
  rows : ∀ row ∈ node.store.events, isRead g row = true → row ∈ events
  readable : ∀ row ∈ node.store.events, isRead g row = true → stateKinds.contains row.kind = true →
    (parseState row).isSome = true
  apart : ∀ row ∈ node.store.events, ∀ ev ∈ events, row.id = ev.id ∨ sameSlot ev row = true → row ∈ events

section Handing
variable [NostrEvents] {g : PublicKey} {events : List Event} {node : Inner} {ev : Event} {now : Timestamp}

theorem Fresh.handed (fresh : Fresh g events node) : Handed g events node where
  carried := fresh.carried
  folded := by
    have none_ : (node.store.groupEvents g).filter (isRead g) = [] := by
      refine List.filter_eq_nil_iff.mpr fun row member => ?_
      have held : row ∈ node.store.events := by
        rcases List.mem_append.mp member with here | here
        · exact (Store.mem_query.mp here).1
        · exact (Store.mem_query.mp here).1
      rw [fresh.bare row held]
      exact Bool.false_ne_true
    rw [fresh.unread, Inner.foldOf, ← fold_filter, none_]
    rfl
  rows row held read := by
    rw [fresh.bare row held] at read
    cases read
  readable row held read := by
    rw [fresh.bare row held] at read
    cases read
  apart row held ev member near := by
    obtain ⟨ids, slots⟩ := fresh.apart row held ev member
    rcases near with same | same
    · exact absurd same ids
    · rw [slots] at same
      cases same

variable [Devices] [Wraps]

/-- What is let in leaves, of what a fold reads, what the store makes of it; nothing else comes in, and the
group is folded. -/
structure Entered (node after : Inner) (g : PublicKey) (ev : Event) : Prop where
  rows : ∀ row, isRead g row = true → (row ∈ after.store.events ↔ row ∈ (node.store.insert ev).1.events)
  only : ∀ row ∈ after.store.events, row = ev ∨ row ∈ node.store.events
  carried : after.groups.carried.contains g = true
  folded : after.groups.state g = after.foldOf g

theorem Handed.entered (handed : Handed g events node) (read : isRead g ev = true)
    (accepted : (node.acceptEvent ev .fetch now).2.accepted = true) : Entered node (node.acceptEvent ev .fetch now).1 g ev := by
  rcases acceptEvent_read now node .fetch read with ⟨_, _, _, out⟩ | ⟨_, _, refused⟩
  · have inserted : ∀ row ∈ (node.store.insert ev).1.events, row = ev ∨ row ∈ node.store.events := by
      intro row held
      rw [Store.mem_insert] at held
      split at held
      · exact held.imp_right And.left
      · exact .inr held
    rw [out]
    by_cases new : (node.store.insert ev).2 = .new
    · rw [if_pos new]
      refine ⟨fun row own => mem_purgeSilenced own, fun row held => inserted row ?_, ?_, ?_⟩
      · exact (Store.mem_remove.mp held).1
      · change ((node.groups.setState g _).carried.contains g) = true
        simp [Groups.setState, handed.carried]
      · rw [foldOf_purgeSilenced]
        change (node.groups.setState g _).state g = _
        rw [Groups.state_setState, if_pos ⟨rfl, handed.carried⟩]
        rfl
    · rw [if_neg new]
      refine ⟨fun row _ => Iff.rfl, inserted, handed.carried, handed.folded.trans ?_⟩
      refine fold_groupEvents_congr fun row _ => ?_
      change row ∈ node.store.events ↔ row ∈ (node.store.insert ev).1.events
      rw [Store.mem_insert, if_neg new]
  · rw [refused] at accepted
    cases accepted

/-- A state piece that is let in can be read. -/
theorem readable_of_accepted (handed : Handed g events node) (read : isRead g ev = true)
    (state : stateKinds.contains ev.kind = true) (dated : ¬ Nostr.add now maxClockSkew < ev.createdAt) :
    (node.acceptEvent ev .fetch now).2.accepted = (parseState ev).isSome := by
  obtain ⟨slot, carried⟩ : ∃ slot, node.groups.carried[g]? = some slot :=
    Option.isSome_iff_exists.mp (by simpa using handed.carried)
  have judging := judge_read read dated carried
  rw [if_pos state] at judging
  rcases acceptEvent_read now node .fetch read with
    ⟨_, judged, _, out⟩ | ⟨unfit, _, refused⟩
  · rw [judging, bind_eq_ok] at judged
    obtain ⟨_, parsed, _⟩ := judged
    rw [out]
    change true = _
    exact (Option.isNone_eq_false_iff.mp (refuseIf_eq_ok.mp parsed)).symm
  · rw [refused, eq_comm]
    refine Bool.eq_false_iff.mpr fun parsed => ?_
    have fits : node.groups.judge ev now = .ok .store := by
      rw [judging, Option.isNone_eq_false_iff.mpr parsed]
      rfl
    have applied := unfit _ fits
    cases applied

theorem Handed.step (handed : Handed g events node) (reads : ∀ ev ∈ events, isRead g ev = true)
    (member : ev ∈ events) (dated : ¬ Nostr.add now maxClockSkew < ev.createdAt) :
    Handed g events (node.acceptEvent ev .fetch now).1 := by
  have read := reads ev member
  cases verdict : (node.acceptEvent ev .fetch now).2.accepted with
  | true =>
    have entered := handed.entered read verdict
    refine ⟨entered.carried, entered.folded, ?_, ?_, ?_⟩
    · intro row held own
      rcases entered.only row held with rfl | old
      · exact member
      · exact handed.rows row old own
    · intro row held own state
      rcases entered.only row held with rfl | old
      · rwa [readable_of_accepted handed read state dated] at verdict
      · exact handed.readable row old own state
    · intro row held other listed near
      rcases entered.only row held with rfl | old
      · exact member
      · exact handed.apart row old other listed near
  | false =>
    rcases acceptEvent_read now node .fetch read with ⟨_, _, _, out⟩ | ⟨_, same, _⟩
    · rw [out] at verdict
      cases verdict
    · rw [same]
      exact handed

/-- `ev` is held, or something in its slot that it does not replace. -/
def Holds (node : Inner) (ev : Event) : Prop :=
  ∃ row ∈ node.store.events, row = ev ∨ sameSlot ev row = true ∧ replaces ev row = false

omit [Devices] [Wraps] in
private theorem sameSlot_kind {a b : Event} (same : sameSlot a b = true) : a.kind = b.kind := by
  simp only [sameSlot, Bool.and_eq_true, beq_iff_eq] at same
  exact same.1.1.2

theorem holds_of_accepted (handed : Handed g events node) (reads : ∀ ev ∈ events, isRead g ev = true)
    (ids : (events.map Event.id).Nodup) (member : ev ∈ events)
    (accepted : (node.acceptEvent ev .fetch now).2.accepted = true) : Holds (node.acceptEvent ev .fetch now).1 ev := by
  have entered := handed.entered (reads ev member) accepted
  by_cases new : (node.store.insert ev).2 = .new
  · refine ⟨ev, (entered.rows ev (reads ev member)).mpr ?_, .inl rfl⟩
    rw [Store.mem_insert, if_pos new]
    exact .inl rfl
  · have stays {row : Event} (held : row ∈ node.store.events) (listed : row ∈ events) :
        row ∈ (node.acceptEvent ev .fetch now).1.store.events := by
      rw [entered.rows row (reads row listed), Store.mem_insert, if_neg new]
      exact held
    by_cases known : ∃ row ∈ node.store.events, row.id = ev.id
    · obtain ⟨row, held, same⟩ := known
      have listed := handed.apart row held ev member (.inl same)
      exact ⟨row, stays held listed, .inl (ids_injective ids row listed ev member same)⟩
    · by_cases weaker : ∃ row ∈ node.store.events, sameSlot ev row = true ∧ replaces ev row = false
      · obtain ⟨row, held, same, weaker⟩ := weaker
        exact ⟨row, stays held (handed.apart row held ev member (.inr same)), .inr ⟨same, weaker⟩⟩
      · refine absurd (Store.insert_new (slot_read (reads ev member)) ?_ ?_) new
        · exact fun row held same => known ⟨row, held, same⟩
        · intro row held same
          by_contra stronger
          exact weaker ⟨row, held, same, by simpa using stronger⟩

theorem Holds.step {other : Event} (holds : Holds node other) (handed : Handed g events node)
    (reads : ∀ ev ∈ events, isRead g ev = true) (listed : other ∈ events) (member : ev ∈ events) :
    Holds (node.acceptEvent ev .fetch now).1 other := by
  cases verdict : (node.acceptEvent ev .fetch now).2.accepted with
  | false =>
    rcases acceptEvent_read now node .fetch (reads ev member) with
      ⟨_, _, _, out⟩ | ⟨_, same, _⟩
    · rw [out] at verdict
      cases verdict
    · rw [same]
      exact holds
  | true =>
    have entered := handed.entered (reads ev member) verdict
    obtain ⟨row, held, near⟩ := holds
    have own : row ∈ events := by
      rcases near with rfl | ⟨same, _⟩
      · exact listed
      · exact handed.apart row held other listed (.inr same)
    by_cases gone : (node.store.insert ev).2 = .new ∧ sameSlot ev row = true
    · -- The row made room for `ev`, which replaces it.
      obtain ⟨new, taken⟩ := gone
      have wins : replaces ev row = true := by
        by_contra weaker
        exact Store.insert_not_new held taken (by simpa using weaker) new
      refine ⟨ev, (entered.rows ev (reads ev member)).mpr ?_, .inr ?_⟩
      · rw [Store.mem_insert, if_pos new]
        exact .inl rfl
      · have slots : sameSlot other ev = true := by
          rcases near with rfl | ⟨same, _⟩
          · rw [sameSlot_comm]
            exact taken
          · rw [sameSlot_comm] at taken
            exact sameSlot_trans same taken
        refine ⟨slots, Bool.eq_false_iff.mpr fun beats => ?_⟩
        have through := replaces_trans (sameSlot_kind slots) (sameSlot_kind taken) beats wins
        rcases near with rfl | ⟨_, weaker⟩
        · rw [replaces_irrefl] at through
          cases through
        · rw [weaker] at through
          cases through
    · refine ⟨row, (entered.rows row (reads row own)).mpr ?_, near⟩
      rw [Store.mem_insert]
      split
      · rename_i new
        exact .inr ⟨held, Bool.eq_false_iff.mpr fun same => gone ⟨new, same⟩⟩
      · exact held

end Handing

/-! ### What a node has come to -/

/-- A node that was handed `events` until nothing more got in, at dates not too early for them. -/
structure Settled [NostrEvents] [Devices] [Wraps] (g : PublicKey) (events : List Event) (node : Inner) : Prop where
  handed : Handed g events node
  reads : ∀ ev ∈ events, isRead g ev = true
  ids : (events.map Event.id).Nodup
  all : ∀ ev ∈ events, Holds node ev ∨ ∃ now : Timestamp, ¬ Nostr.add now maxClockSkew < ev.createdAt ∧
    (node.acceptEvent ev .fetch now).2.accepted = false

section Handed
variable [NostrEvents] [Devices] [Wraps] {g : PublicKey} {events : List Event} {node : Inner} {clock : ℕ → Timestamp}

theorem settled_handOver (fresh : Fresh g events node) (reads : ∀ ev ∈ events, isRead g ev = true)
    (ids : (events.map Event.id).Nodup) (dated : ∀ i, ∀ ev ∈ events, ¬ Nostr.add (clock i) maxClockSkew < ev.createdAt) :
    Settled g events (node.handOver clock events) := by
  have step : ∀ at_ : Inner × ℕ, ∀ ev ∈ events, Handed g events at_.1 → Handed g events (Inner.hand clock at_ ev).1.1 :=
    fun at_ ev member handed => handed.step reads member (dated at_.2 ev member)
  have still : ∀ (at_ : Inner × ℕ) (ev : Event), (Inner.hand clock at_ ev).2 = false →
      (Inner.hand clock at_ ev).1.1 = at_.1 := by
    intro at_ ev refused
    rcases at_.1.acceptEvent_cases ev .fetch (clock at_.2) with ⟨_, _, passed⟩ | ⟨same, _⟩
    · change (at_.1.acceptEvent ev .fetch (clock at_.2)).2.accepted = false at refused
      rw [passed.out] at refused
      cases refused
    · exact same
  refine ⟨?_, reads, ids, fun ev member => ?_⟩
  · exact retry_invariant (s := (node, 0)) step fresh.handed
  · have mark : ∀ at_ : Inner × ℕ, Handed g events at_.1 → (Inner.hand clock at_ ev).2 = true →
        Holds (Inner.hand clock at_ ev).1.1 ev :=
      fun at_ handed accepted => holds_of_accepted handed reads ids member accepted
    have keeps : ∀ at_ : Inner × ℕ, ∀ other ∈ events, Handed g events at_.1 → Holds at_.1 ev →
        Holds (Inner.hand clock at_ other).1.1 ev :=
      fun at_ other listed handed holds => holds.step handed reads member listed
    rcases retry_marks (s := (node, 0)) step mark keeps fresh.handed member with left | holds
    · obtain ⟨at_, same, refused⟩ := retry_left still left
      refine .inr ⟨clock at_.2, dated at_.2 ev member, ?_⟩
      unfold Inner.handOver
      rw [← same]
      exact refused
    · exact .inl holds

variable {ev : Event}

omit [Devices] [Wraps] in
private theorem sameSlot_regular (read : isRead g ev = true) (regular : stateKinds.contains ev.kind = false) (row : Event) :
    sameSlot ev row = false := by
  have none_ : slotD ev = none := by
    rw [slotD_of_read (isRead_iff.mp read).2, regular]
    rfl
  simp [sameSlot, none_]

/-- What is no state piece is held, or still refused. -/
theorem Settled.held_or_refused (settled : Settled g events node) (member : ev ∈ events)
    (regular : stateKinds.contains ev.kind = false) : ev ∈ node.store.events ∨
      ∃ now : Timestamp, ¬ Nostr.add now maxClockSkew < ev.createdAt ∧
        ∀ judgement, node.groups.judge ev now = .ok judgement → node.applies ev judgement = false := by
  have read := settled.reads ev member
  rcases settled.all ev member with ⟨row, held, rfl | ⟨same, _⟩⟩ | ⟨now, dated, refused⟩
  · exact .inl held
  · rw [sameSlot_regular read regular] at same
    cases same
  · rcases acceptEvent_read now node .fetch read with ⟨_, _, _, out⟩ | ⟨unfit, _, _⟩
    · rw [out] at refused
      cases refused
    · exact .inr ⟨now, dated, unfit⟩

/-- Which state pieces are held goes by what was handed over alone. -/
theorem Settled.piece_iff (settled : Settled g events node) (member : ev ∈ events)
    (state : stateKinds.contains ev.kind = true) : ev ∈ node.store.events ↔ (parseState ev).isSome = true ∧
      ∀ other ∈ events, (parseState other).isSome = true → sameSlot ev other = true → replaces other ev = false := by
  have pieces {piece : Event} (listed : piece ∈ events) (kind : stateKinds.contains piece.kind = true)
      (parsed : (parseState piece).isSome = true) : Holds node piece := by
    rcases settled.all piece listed with holds | ⟨now, dated, refused⟩
    · exact holds
    · rw [readable_of_accepted settled.handed (settled.reads piece listed) kind dated, parsed] at refused
      cases refused
  constructor
  · intro held
    refine ⟨settled.handed.readable ev held (settled.reads ev member) state, fun other listed parsed same => ?_⟩
    have kind : stateKinds.contains other.kind = true := sameSlot_kind same ▸ state
    obtain ⟨row, here, near⟩ := pieces listed kind parsed
    rcases near with rfl | ⟨slots, weaker⟩
    · rw [node.store.eq_of_sameSlot held here same]
      exact replaces_irrefl row
    · rw [node.store.eq_of_sameSlot held here (sameSlot_trans same slots)]
      exact weaker
  · rintro ⟨parsed, unbeaten⟩
    obtain ⟨row, here, near⟩ := pieces member state parsed
    rcases near with rfl | ⟨same, weaker⟩
    · exact here
    · have listed := settled.handed.apart row here ev member (.inr same)
      have kind : stateKinds.contains row.kind = true := sameSlot_kind same ▸ state
      have readable := settled.handed.readable row here (settled.reads row listed) kind
      have other := unbeaten row listed readable same
      have alike : row = ev := by
        by_contra differ
        have apart : ev.id ≠ row.id := fun ids => differ (ids_injective settled.ids row listed ev member ids.symm)
        rcases replaces_total (sameSlot_kind same) apart with beats | beaten
        · rw [weaker] at beats
          cases beats
        · rw [other] at beaten
          cases beaten
      exact alike ▸ here

/-- The fold of what is held judges what is handed over. -/
private theorem Settled.slot (settled : Settled g events node) : node.groups.carried[g]? = some (node.foldOf g) := by
  obtain ⟨slot, carried⟩ : ∃ slot, node.groups.carried[g]? = some slot :=
    Option.isSome_iff_exists.mp (by simpa using settled.handed.carried)
  have folded := settled.handed.folded
  rw [Groups.state, carried, Option.join_some] at folded
  rw [carried, folded]

/-- The `9007` of the owner whom the state names is held. -/
theorem Settled.creator (settled : Settled g events node) (member : ev ∈ events) (kind : ev.kind = createGroup)
    {s : GroupState} (folds : node.foldOf g = some s) (owner : s.namedOwner = some ev.pubkey) : ev ∈ node.store.events := by
  have regular : stateKinds.contains ev.kind = false := by
    rw [kind]
    exact createGroup_not_state
  rcases settled.held_or_refused member regular with held | ⟨now, dated, unfit⟩
  · exact held
  · have judged : node.groups.judge ev now = .ok .store := by
      rw [judge_read (settled.reads ev member) dated settled.slot, folds, regular]
      simp [orRefuse_some_bind, kind, owner, refuseIf]
    have applied := unfit _ judged
    cases applied

/-- The state that the key of `g` signed. -/
def pieceFilter (g : PublicKey) : Filter where
  kinds := some stateKinds
  authors := some [g]
  genericTags := [(lowercaseD, [Nostr.toHex g])]

/-- The queries for a group's events find `ev`, if it is there. -/
def inFold (g : PublicKey) (ev : Event) : Bool :=
  (Filter.inGroup { kinds := some foldKinds } g).selects ev || (pieceFilter g).selects ev

omit [Devices] [Wraps] in
private theorem groupEvents_eq (s : Store) : s.groupEvents g =
    s.query (Filter.inGroup { kinds := some foldKinds } g) ++ s.query (pieceFilter g) := rfl

omit [Devices] [Wraps] in
theorem mem_groupEvents {s : Store} : ev ∈ s.groupEvents g ↔ ev ∈ s.events ∧ inFold g ev = true := by
  rw [groupEvents_eq, List.mem_append, Store.mem_query, Store.mem_query]
  simp [inFold, Store.reaches, Filter.inGroup, pieceFilter, and_or_left]

omit [Devices] [Wraps] in
theorem isRead_of_action (action : isAction g ev = true) : isRead g ev = true := by
  simp only [isAction, isRead, Bool.and_eq_true, Bool.or_eq_true] at action ⊢
  exact ⟨action.1, .inr action.2⟩

omit [Devices] [Wraps] in
theorem action_ids (s : Store) : (((s.groupEvents g).filter (isAction g)).map Event.id).Nodup := by
  have none_ : (s.query (pieceFilter g)).filter (isAction g) = [] := by
    refine List.filter_eq_nil_iff.mpr fun row found action => ?_
    obtain ⟨_, _, fits, _⟩ := Store.mem_query.mp found
    simp only [pieceFilter, Filter.selects, Bool.and_eq_true, Option.all_some] at fits
    have other := action_not_state (Bool.and_eq_true_iff.mp action).2
    rw [fits.1.1.1.2] at other
    cases other
  rw [groupEvents_eq, List.filter_append, none_, List.append_nil]
  exact (s.query_ids _).sublist (List.filter_sublist.map _)

/-- What is held has every action that a fold of it would apply. -/
theorem Settled.exhausts (settled : Settled g events node) :
    GroupState.Exhausts g (events.filter (inFold g)) (node.store.groupEvents g) where
  subset ev listed action := by
    obtain ⟨held, found⟩ := mem_groupEvents.mp listed
    exact List.mem_filter.mpr ⟨settled.handed.rows ev held (isRead_of_action action), found⟩
  distinct := action_ids _
  refused s folds ev offers action plain since absent t folds' applied := by
    obtain ⟨member, found⟩ := List.mem_filter.mp offers
    have acts : actionKinds.contains ev.kind = true := (Bool.and_eq_true_iff.mp action).2
    have regular := action_not_state acts
    have create : ev.kind ≠ createGroup := by
      intro create
      rw [create, createGroup_not_action] at acts
      cases acts
    rcases settled.held_or_refused member regular with held | ⟨now, dated, unfit⟩
    · exact absent (mem_groupEvents.mpr ⟨held, found⟩)
    · have current : s.isFolded ev now = false := by
        rw [GroupState.isFolded, if_neg plain, decide_eq_false (not_lt.mpr since), Bool.and_false]
      have judged : node.groups.judge ev now = .ok (.foldWith g) := by
        have fold : node.foldOf g = some s := folds
        rw [judge_read (settled.reads ev member) dated settled.slot, fold, regular]
        simp [orRefuse_some_bind, create, plain, current, refuseIf]
      have spurned := unfit _ judged
      rw [Inner.applies, folds', Option.any_some, Std.ExtTreeSet.contains_iff_mem.mpr applied] at spurned
      cases spurned

variable {others : List Event} {node' : Inner}

/-- Two nodes that settle on the same events hold the same state pieces. -/
private theorem Settled.same_pieces (settled : Settled g events node) (settled' : Settled g others node')
    (same : ∀ ev, ev ∈ events ↔ ev ∈ others) (kind : Kind) :
    (scan g (node.store.groupEvents g)).pieces[kind]? = (scan g (node'.store.groupEvents g)).pieces[kind]? := by
  rw [scan_pieces, scan_pieces]
  have ids : ∀ a ∈ node.store.groupEvents g, ∀ b ∈ node.store.groupEvents g, a.id = b.id → a = b :=
    fun a first b second => node.store.eq_of_id (mem_groupEvents.mp first).1 (mem_groupEvents.mp second).1
  refine Lib.KeepBest.best_congr (pieces_strictTotalOn ids kind) fun ev => ?_
  rw [List.mem_filter, List.mem_filter, mem_groupEvents, mem_groupEvents]
  refine and_congr_left fun piece => and_congr_left fun _ => ?_
  simp only [isPiece, Bool.and_eq_true] at piece
  obtain ⟨⟨⟨own, state⟩, _⟩, _⟩ := piece
  have read : isRead g ev = true := by simp only [isRead, own, state, Bool.true_or, Bool.and_self]
  by_cases member : ev ∈ events
  · rw [settled.piece_iff member state, settled'.piece_iff ((same ev).mp member) state]
    simp only [same]
  · have absent : ev ∉ others := fun here => member ((same ev).mpr here)
    exact iff_of_false (fun held => member (settled.handed.rows ev held read))
      (fun held => absent (settled'.handed.rows ev held read))

/-- The owner whom the held pieces name is known by a `9007` on one side as on the other. -/
private theorem Settled.creator_held (settled : Settled g events node) (settled' : Settled g others node')
    (same : ∀ ev, ev ∈ events ↔ ev ∈ others) {w : Winners} (won : winners g (node'.store.groupEvents g) = some w)
    {p : PublicKey} (named : w.namedOwner = some p) (signed : p ∈ (scan g (node.store.groupEvents g)).creators) :
    p ∈ (scan g (node'.store.groupEvents g)).creators := by
  obtain ⟨ev, here, creates, rfl⟩ := mem_scan_creators.mp signed
  obtain ⟨held, found⟩ := mem_groupEvents.mp here
  have create : ev.kind = createGroup := by simpa using (Bool.and_eq_true_iff.mp creates).2
  have read : isRead g ev = true := by
    simp only [isCreator, isRead, Bool.and_eq_true, Bool.or_eq_true] at creates ⊢
    exact ⟨creates.1, .inl (.inr creates.2)⟩
  have member := (same ev).mp (settled.handed.rows ev held read)
  obtain ⟨s, folds, owner⟩ := GroupState.fold_namedOwner won
  have there := settled'.creator member create folds (owner.trans named)
  exact mem_scan_creators.mpr ⟨ev, mem_groupEvents.mpr ⟨there, found⟩, creates, rfl⟩

/-- Two nodes that settle on the same events, and keep the same of the invites that the joins among them may
come in by, end in the same group. -/
theorem Settled.core_eq (settled : Settled g events node) (settled' : Settled g others node')
    (same : ∀ ev, ev ∈ events ↔ ev ∈ others)
    (invites : ∀ ev ∈ events, ∀ join ∈ events, GroupState.Admits ev join →
      (ev ∈ node.store.events ↔ ev ∈ node'.store.events)) :
    (node.groups.state g).map GroupState.core = (node'.groups.state g).map GroupState.core := by
  have pieces := settled.same_pieces settled' same
  have won : winners g (node.store.groupEvents g) = winners g (node'.store.groupEvents g) := by
    unfold winners winning
    simp only [pieces]
  have offered : GroupState.Exhausts g (events.filter (inFold g)) (node'.store.groupEvents g) := by
    have there := settled'.exhausts
    refine ⟨fun ev here action => ?_, there.distinct, fun s folds ev offers => there.refused s folds ev ?_⟩
    · obtain ⟨member, found⟩ := List.mem_filter.mp (there.subset ev here action)
      exact List.mem_filter.mpr ⟨(same ev).mpr member, found⟩
    · obtain ⟨member, found⟩ := List.mem_filter.mp offers
      exact List.mem_filter.mpr ⟨(same ev).mp member, found⟩
  rw [settled.handed.folded, settled'.handed.folded]
  refine settled.exhausts.core_eq offered (settled.ids.sublist (List.filter_sublist.map _)) pieces ?_ ?_
  · intro w won' p named
    constructor
    · exact settled.creator_held settled' same (won ▸ won') named
    · exact settled'.creator_held settled (fun ev => (same ev).symm) won' named
  · intro ev action join listed admits
    rw [mem_groupEvents, mem_groupEvents]
    refine and_congr_left fun _ => ?_
    by_cases member : ev ∈ events
    · exact invites ev member join (List.mem_filter.mp listed).1 admits
    · have read := isRead_of_action action
      exact iff_of_false (fun held => member (settled.handed.rows ev held read))
        (fun held => member ((same ev).mpr (settled'.handed.rows ev held read)))

end Handed

/-! ### A guest's invite -/

/-- The guest is let in and invites the caller, who comes; then the guest is removed. -/
def invited : List Event :=
  genesis founder den "den" false 100 ++
    [(Draft.putUser den guest []).sign founder 110, (Draft.createInvite den "key" none).sign guest 120,
      (Draft.join den "key").sign caller 130, (Draft.removeUser den guest).sign founder 140]

/-- A node that has yet to hear of the den. -/
def denNode : Inner where
  store := blankStore
  groups := ({ me := steward } : Groups).carry den

theorem denNode_fresh : Fresh den invited denNode where
  carried := by decide +kernel
  unread := by decide +kernel
  bare := by simp [denNode, blankStore]
  apart := by simp [denNode, blankStore]

end HitEnter.Node
