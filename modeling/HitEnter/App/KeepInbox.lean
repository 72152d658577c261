import HitEnter.Node.Accept
import HitEnter.Node.Compact
import HitEnter.Node.InboxMap
import HitEnter.Wire.Profiles

/-! A person's inbox list, which names the anchors of their groups: looked at from time to
time, and signed anew where it names others. -/

namespace HitEnter.App

open Wire HitEnter.Group HitEnter.Node

section Keep
variable [Profiles]

/-- The members of a group whose profiles say they are anchors. -/
def anchors (node : Inner) (group : PublicKey) : List PublicKey :=
  let members := (node.groups.state group).elim [] fun s => s.members.keys
  if members.isEmpty then []
  else ((node.store.query { kinds := some [profile], authors := some members }).filter isAnchor).map Event.pubkey

/-- The anchors of the groups the person is in. -/
def groupAnchors (node : Inner) : BTreeSet PublicKey :=
  .ofList ((node.groups.carried.toList.filter fun entry => entry.2.any fun s => s.isMember node.groups.me).flatMap
    fun entry => anchors node entry.1) compare

/-- The inbox list held of a person. -/
def listOf (node : Inner) (person : PublicKey) : Option Event :=
  (node.store.query { kinds := some [inboxList], authors := some [person], limit := some 1 }).head?

variable [Devices]

def inboxOf (node : Inner) (person : PublicKey) : List (PublicKey × Option EndpointId) :=
  ((listOf node person).map inboxesOf).getD []

/-- A list of anchors, each with a device to dial. -/
def signList (me : PublicKey) (named : List (PublicKey × EndpointId)) (date : Timestamp) : Event :=
  signed me date inboxList (named.map fun entry => ["anchor", Nostr.toHex entry.1, Devices.toText entry.2]) ""

/-- The list that names `list`, as far as their devices are known, dated after the one held. -/
def newList (node : Inner) (list : List PublicKey) (now : Timestamp) : Event :=
  signList node.groups.me (list.flatMap fun a => (node.book.devicesOf a now).map fun d => (a, d))
    ((listOf node node.groups.me).elim now fun c => max now (Nostr.add c.createdAt 1))

/-- Those whom the person's list names. -/
def named (node : Inner) : BTreeSet PublicKey := .ofList ((inboxOf node node.groups.me).map Prod.fst) compare

variable [Wraps]

/-- The list names exactly the anchors of the person's groups, or another is signed. -/
def keepInbox (node : Inner) (now : Timestamp) : Inner × Option Event :=
  if (named node).toList ≠ (groupAnchors node).toList then
    let list := newList node (groupAnchors node).toList now
    ((node.acceptEvent list .local_ now).1, some list)
  else (node, none)

end Keep

/-! ### Sets -/

theorem toList_inj {a b : BTreeSet PublicKey} : a.toList = b.toList ↔ ∀ p, p ∈ a ↔ p ∈ b := by
  refine ⟨fun same p => by rw [← Std.ExtTreeSet.mem_toList, same, Std.ExtTreeSet.mem_toList], fun same => ?_⟩
  rw [Std.ExtTreeSet.ext_mem fun {p} => same p]

theorem mem_ofList {people : List PublicKey} {p : PublicKey} : p ∈ (Std.ExtTreeSet.ofList people compare) ↔ p ∈ people := by
  simp

/-! ### What a look finds -/

section Looks
variable [Profiles] {node : Inner} {a p : PublicKey} {now : Timestamp}

theorem mem_anchors {group : PublicKey} : a ∈ anchors node group ↔
    (∃ s, node.groups.state group = some s ∧ s.isMember a = true) ∧
      ∃ ev ∈ node.store.events, ev.pubkey = a ∧ isAnchor ev = true := by
  unfold anchors
  cases found : node.groups.state group with
  | none => simp
  | some s =>
    have member (p : PublicKey) : p ∈ s.members.keys ↔ s.isMember p = true := by simp [GroupState.isMember]
    have profiles (ev : Event) : (ev ∈ (node.store.query { kinds := some [profile], authors := some s.members.keys }).filter
        isAnchor) ↔ ev ∈ node.store.events ∧ s.isMember ev.pubkey = true ∧ isAnchor ev = true := by
      have kind (anchor : isAnchor ev = true) : ev.kind = profile := beq_iff_eq.mp (Bool.and_eq_true_iff.mp anchor).1
      rw [List.mem_filter, Store.mem_query]
      simp only [Filter.selects, Store.reaches, Option.all_none, Option.all_some, Bool.true_and, Bool.and_true, List.all_nil,
        Bool.and_eq_true, List.contains_iff_mem, List.mem_singleton, member]
      constructor
      · rintro ⟨⟨held, -, ⟨own, -⟩, -⟩, anchor⟩
        exact ⟨held, own, anchor⟩
      · rintro ⟨held, own, anchor⟩
        exact ⟨⟨held, trivial, ⟨own, kind anchor⟩, trivial⟩, anchor⟩
    dsimp only [Option.elim_some]
    split
    · rename_i nobody
      have absent : s.isMember a = false := by
        rw [← Bool.not_eq_true, ← member, List.isEmpty_iff.mp nobody]
        exact List.not_mem_nil
      simp [absent]
    · rw [List.mem_map]
      simp only [profiles]
      constructor
      · rintro ⟨ev, ⟨held, own, anchor⟩, rfl⟩
        exact ⟨⟨s, rfl, own⟩, ev, held, rfl, anchor⟩
      · rintro ⟨⟨_, same, own⟩, ev, held, rfl, anchor⟩
        cases same
        exact ⟨ev, ⟨held, own, anchor⟩, rfl⟩

theorem mem_groupAnchors : a ∈ groupAnchors node ↔
    (∃ group s, node.groups.state group = some s ∧ s.isMember node.groups.me = true ∧ s.isMember a = true) ∧
      ∃ ev ∈ node.store.events, ev.pubkey = a ∧ isAnchor ev = true := by
  rw [groupAnchors, mem_ofList, List.mem_flatMap]
  constructor
  · rintro ⟨⟨group, slot⟩, carried, anchor⟩
    obtain ⟨listed, joined⟩ := List.mem_filter.mp carried
    obtain ⟨⟨s, state, own⟩, profiled⟩ := mem_anchors.mp anchor
    have held := Std.ExtTreeMap.mem_toList_iff_getElem?_eq_some.mp listed
    have same : slot = some s := by rwa [Groups.state, held, Option.join_some] at state
    rw [same] at joined
    exact ⟨⟨group, s, state, joined, own⟩, profiled⟩
  · rintro ⟨⟨group, s, state, joined, own⟩, profiled⟩
    have held : node.groups.carried[group]? = some (some s) := Option.join_eq_some_iff.mp state
    refine ⟨(group, some s), List.mem_filter.mpr ⟨Std.ExtTreeMap.mem_toList_iff_getElem?_eq_some.mpr held, joined⟩, ?_⟩
    exact mem_anchors.mpr ⟨⟨s, state, own⟩, profiled⟩

theorem listOf_eq : listOf node p = node.store.inboxOf p := by
  have listed (ev : Event) : node.store.inboxOf p = some ev ↔
      ev ∈ (node.store.events.filter (Filter.selects { kinds := some [inboxList], authors := some [p], limit := some 1 })) := by
    rw [Store.inboxOf_eq_some, List.mem_filter]
    simp [Filter.selects, and_comm]
  have first : listOf node p = (Lib.Ranks.sorted newestFirst
      (node.store.events.filter (Filter.selects { kinds := some [inboxList], authors := some [p], limit := some 1 }))).head? := by
    change ((Lib.Ranks.sorted newestFirst _).take 1).head? = _
    rw [List.head?_take, if_neg Nat.one_ne_zero]
  rw [first]
  refine Option.ext fun ev => ?_
  constructor
  · intro head
    exact (listed ev).mpr (Lib.Ranks.mem_sorted.mp (List.mem_of_mem_head? head))
  · intro held
    cases rows : Lib.Ranks.sorted newestFirst (node.store.events.filter
        (Filter.selects { kinds := some [inboxList], authors := some [p], limit := some 1 })) with
    | nil =>
      have member := (@Lib.Ranks.mem_sorted _ _ _ newestFirst _ _).mpr ((listed ev).mp held)
      rw [rows] at member
      cases member
    | cons x rest =>
      have member : x ∈ Lib.Ranks.sorted newestFirst (node.store.events.filter
          (Filter.selects { kinds := some [inboxList], authors := some [p], limit := some 1 })) := by
        rw [rows]
        exact List.mem_cons_self
      have same := (listed x).mpr (Lib.Ranks.mem_sorted.mp member)
      rw [List.head?_cons, ← same, held]

variable [Devices]

/-- A list names whoever has a device. -/
theorem mem_inboxes_newList {list : List PublicKey} : a ∈ (inboxesOf (newList node list now)).map Prod.fst ↔
    a ∈ list ∧ node.book.devicesOf a now ≠ [] := by
  have rows : (inboxesOf (newList node list now)).map Prod.fst =
      (list.flatMap fun a => (node.book.devicesOf a now).map fun d => (a, d)).map Prod.fst := by
    simp [inboxesOf, newList, signList, signed, List.filterMap_map, Function.comp_def]
  have people : (inboxesOf (newList node list now)).map Prod.fst =
      list.flatMap fun a => (node.book.devicesOf a now).map fun _ => a := by
    rw [rows, List.map_flatMap]
    simp only [List.map_map, Function.comp_def]
  rw [people, List.mem_flatMap]
  constructor
  · rintro ⟨b, asked, member⟩
    obtain ⟨d, device, rfl⟩ := List.mem_map.mp member
    exact ⟨asked, List.ne_nil_of_mem device⟩
  · rintro ⟨asked, some_⟩
    obtain ⟨d, device⟩ := List.exists_mem_of_ne_nil _ some_
    exact ⟨a, asked, List.mem_map.mpr ⟨d, device, rfl⟩⟩

end Looks

/-! ### The list is accepted -/

section Accept
variable [Profiles] [Devices] [Wraps] {node : Inner} {list : Event} {now : Timestamp}

/-- A list of one's own is kept unless it is ahead of the clock. -/
theorem acceptEvent_list (kind : list.kind = inboxList) (own : list.pubkey = node.groups.me) :
    (node.acceptEvent list .local_ now).1 = if list.createdAt ≤ Nostr.add now maxClockSkew then
      (node.insert list now).1.follow list (node.insert list now).2 now else node := by
  have carried : carriedKinds.contains list.kind = true := by rw [kind]; decide
  have personal : isPersonal list.kind = true := by rw [kind]; decide
  have wrap : list.kind ≠ giftWrap := by rw [kind]; decide
  have binding : list.kind ≠ deviceBinding := by rw [kind]; decide
  have message : list.kind ≠ chatMessage := by rw [kind]; decide
  have deletable : deletableKinds.contains list.kind = false := by rw [kind]; decide
  have ours : node.groups.judgePersonal list = .ok .store := by
    simp only [Groups.judgePersonal, own, beq_self_eq_true, Bool.true_or, Bool.not_true]
    rfl
  have undeleted : node.isDeleted list = false := by rw [Inner.isDeleted, deletable, Bool.false_and]
  have unremoved : node.isRemoved list = false := by rw [Inner.isRemoved, deletable, Bool.false_and]
  have spaced : node.spaced list = none := if_neg message
  by_cases early : list.createdAt ≤ Nostr.add now maxClockSkew
  · have judged : node.judged list .local_ now = .ok .store := by
      have inTime : ¬ Nostr.add now maxClockSkew < list.createdAt := not_lt.mpr early
      rw [Inner.judged_of_not_wrap wrap]
      simp only [Groups.judge, carried, wrap, personal, ours, inTime, Bool.not_true, decide_false, if_true, if_false]
      rfl
    have passed : Inner.Passed node list .local_ now .store node :=
      ⟨judged, rfl, Inner.bookBinding_of_other binding, undeleted, unremoved, spaced⟩
    rw [if_pos early, passed.out]
  · have judged : node.judged list .local_ now = .error .fromTheFuture := by
      have late : Nostr.add now maxClockSkew < list.createdAt := not_le.mp early
      rw [Inner.judged_of_not_wrap wrap]
      simp only [Groups.judge, carried, late, Bool.not_true, decide_true]
      rfl
    rw [if_neg early, Inner.acceptEvent, judged]

omit [Devices] [Wraps] in
/-- A list that is newer than the one held, and of which no other row has the id, is stored. -/
theorem insert_list (kind : list.kind = inboxList) (hashed : ∀ row ∈ node.store.events, row.id = list.id → row = list)
    (newer : ∀ held, node.store.inboxOf list.pubkey = some held → held.createdAt < list.createdAt) :
    (node.store.insert list).2 = .new := by
  have replaceable : slot list = .replaceable := by
    rw [slot, kind]
    exact if_pos (by decide)
  refine Store.insert_new (by rw [replaceable]; exact Slot.noConfusion) ?_ ?_
  · intro row held same
    obtain rfl := hashed row held same
    exact absurd (newer row (Store.inboxOf_eq_some.mpr ⟨held, kind, rfl⟩)) (lt_irrefl _)
  · intro held listed together
    simp only [sameSlot, Bool.and_eq_true, beq_iff_eq] at together
    obtain ⟨⟨⟨_, sameKind⟩, samePerson⟩, _⟩ := together
    have later := newer held (Store.inboxOf_eq_some.mpr ⟨listed, sameKind.symm.trans kind, samePerson.symm⟩)
    have noState : stateKinds.contains list.kind = false := by rw [kind]; decide
    rw [replaces, noState, if_neg fun state => Bool.false_ne_true state.1, if_pos later.ne', decide_eq_true later]

/-- A list that is stored is the one held, and changes neither whom the person shares a group with
nor what anyone's profile says. -/
theorem accepted_list (kind : list.kind = inboxList) (own : list.pubkey = node.groups.me)
    (early : list.createdAt ≤ Nostr.add now maxClockSkew) (new : (node.store.insert list).2 = .new) :
    (node.acceptEvent list .local_ now).1.groups.me = node.groups.me ∧
    (node.acceptEvent list .local_ now).1.book = node.book ∧
    listOf (node.acceptEvent list .local_ now).1 node.groups.me = some list ∧
    (∀ a, a ∈ groupAnchors (node.acceptEvent list .local_ now).1 ↔ a ∈ groupAnchors node) := by
  have stored : (node.insert list now).2 = .new := new
  have followed : (node.acceptEvent list .local_ now).1 = (node.insert list now).1.setInboxes list := by
    have others : inboxList ≠ deletion ∧ inboxList ≠ deleteEvent ∧ inboxList ≠ giftWrap := by decide
    rw [acceptEvent_list kind own, if_pos early, stored, Inner.follow, kind]
    simp only [ne_eq, not_true_eq_false, others, if_true, if_false]
  have rows (row : Event) : row ∈ (node.acceptEvent list .local_ now).1.store.events ↔
      row = list ∨ row ∈ node.store.events ∧ sameSlot list row = false := by
    rw [followed]
    change row ∈ (node.store.insert list).1.events ↔ _
    rw [Store.mem_insert, if_pos new]
  have states (group : PublicKey) : (node.acceptEvent list .local_ now).1.groups.state group = node.groups.state group := by
    rw [followed]
    rfl
  refine ⟨by rw [followed]; rfl, by rw [followed]; rfl, ?_, fun a => ?_⟩
  · rw [listOf_eq, Store.inboxOf_eq_some]
    exact ⟨(rows list).mpr (.inl rfl), kind, own⟩
  · have profiles (ev : Event) (anchor : isAnchor ev = true) :
        ev ∈ (node.acceptEvent list .local_ now).1.store.events ↔ ev ∈ node.store.events := by
      have profiled : ev.kind = profile := beq_iff_eq.mp (Bool.and_eq_true_iff.mp anchor).1
      rw [followed]
      refine Store.mem_insert_of_kind ?_
      rw [profiled, kind]
      decide
    have person : (node.acceptEvent list .local_ now).1.groups.me = node.groups.me := by rw [followed]; rfl
    rw [mem_groupAnchors, mem_groupAnchors, person]
    simp only [states]
    refine and_congr_right fun _ => exists_congr fun ev => ?_
    constructor
    · rintro ⟨held, same, anchor⟩
      exact ⟨(profiles ev anchor).mp held, same, anchor⟩
    · rintro ⟨held, same, anchor⟩
      exact ⟨(profiles ev anchor).mpr held, same, anchor⟩

theorem keepInbox_signs_iff : (keepInbox node now).2 = none ↔ (named node).toList = (groupAnchors node).toList := by
  unfold keepInbox
  split
  · rename_i differ
    simp [differ]
  · rename_i same
    simpa using same

theorem keepInbox_node (differ : (named node).toList ≠ (groupAnchors node).toList) : (keepInbox node now).1 =
    (node.acceptEvent (newList node (groupAnchors node).toList now) .local_ now).1 := by
  rw [keepInbox, if_pos differ]

end Accept

section Settles
variable [Profiles] [Devices] {node : Inner} {now : Timestamp}

/-- A list that was stored names just the anchors that have a device. -/
theorem named_of_listOf {list : List PublicKey} {after : Inner} (me : after.groups.me = node.groups.me)
    (held : listOf after node.groups.me = some (newList node list now)) {a : PublicKey} :
    a ∈ named after ↔ a ∈ list ∧ node.book.devicesOf a now ≠ [] := by
  rw [named, mem_ofList, inboxOf, me, held, Option.map_some, Option.getD_some, mem_inboxes_newList]

variable (saturates : ∀ (date : Timestamp) (secs : UInt64),
  (Nostr.add date secs).toNat = min (date.toNat + secs.toNat) (2 ^ 64 - 1))

include saturates

/-- The new list's date is as good as that of the list held is a second short of the clock's leeway. -/
theorem newList_early_iff {list : List PublicKey} : (newList node list now).createdAt ≤ Nostr.add now maxClockSkew ↔
    ∀ c, listOf node node.groups.me = some c → Nostr.add c.createdAt 1 ≤ Nostr.add now maxClockSkew := by
  have now_early : now ≤ Nostr.add now maxClockSkew := le_add saturates now maxClockSkew
  change (listOf node node.groups.me).elim now (fun c => max now (Nostr.add c.createdAt 1)) ≤ _ ↔ _
  cases listOf node node.groups.me with
  | none => simp [now_early]
  | some c => simp [now_early]

theorem newList_newer {list : List PublicKey} (clock : now.toNat < 2 ^ 63)
    (early : ∀ c, listOf node node.groups.me = some c → Nostr.add c.createdAt 1 ≤ Nostr.add now maxClockSkew) {held : Event}
    (found : listOf node node.groups.me = some held) : held.createdAt < (newList node list now).createdAt := by
  have dated : (newList node list now).createdAt = max now (Nostr.add held.createdAt 1) := by
    change (listOf node node.groups.me).elim now (fun c => max now (Nostr.add c.createdAt 1)) = _
    rw [found, Option.elim_some]
  have bounded : (Nostr.add held.createdAt 1).toNat ≤ (Nostr.add now maxClockSkew).toNat := early held found
  have skew : maxClockSkew.toNat = 600 := rfl
  have one : (1 : UInt64).toNat = 1 := rfl
  rw [saturates, saturates, one, skew] at bounded
  have next : held.createdAt < Nostr.add held.createdAt 1 := by
    change held.createdAt.toNat < (Nostr.add held.createdAt 1).toNat
    rw [saturates, one]
    omega
  rw [dated]
  exact lt_max_of_lt_right next

variable [Wraps]

/-- A second look signs nothing just if there was nothing to sign, or the list signed could name every
anchor and was taken. -/
theorem keepInbox_settles_iff (clock : now.toNat < 2 ^ 63)
    (hashed : ∀ row ∈ node.store.events, row.id = (newList node (groupAnchors node).toList now).id →
      row = newList node (groupAnchors node).toList now) :
    (keepInbox (keepInbox node now).1 now).2 = none ↔
      (named node).toList = (groupAnchors node).toList ∨
      (∀ a ∈ groupAnchors node, node.book.devicesOf a now ≠ []) ∧
        ∀ c, listOf node node.groups.me = some c → Nostr.add c.createdAt 1 ≤ Nostr.add now maxClockSkew := by
  rw [keepInbox_signs_iff]
  by_cases same : (named node).toList = (groupAnchors node).toList
  · have idle : (keepInbox node now).1 = node := by rw [keepInbox, if_neg (not_not.mpr same)]
    simp only [idle, same, true_or]
  rw [keepInbox_node same, or_iff_right same]
  by_cases early : (newList node (groupAnchors node).toList now).createdAt ≤ Nostr.add now maxClockSkew
  · have taken := (newList_early_iff saturates).mp early
    have new : (node.store.insert (newList node (groupAnchors node).toList now)).2 = .new :=
      insert_list rfl hashed fun held found => newList_newer saturates clock taken (listOf_eq.trans found)
    obtain ⟨me, book, held, kept⟩ := accepted_list rfl rfl early new
    rw [toList_inj, and_iff_left taken]
    simp only [named_of_listOf me held, kept, Std.ExtTreeSet.mem_toList]
    exact ⟨fun all a anchor => ((all a).mpr anchor).2, fun all a => ⟨And.left, fun anchor => ⟨anchor, all a anchor⟩⟩⟩
  · -- Refused as from the future: the node is as it was, and so are its anchors.
    have refused : (node.acceptEvent (newList node (groupAnchors node).toList now) .local_ now).1 = node := by
      rw [acceptEvent_list rfl rfl, if_neg early]
    rw [refused]
    exact ⟨fun settled => absurd settled same, fun both => absurd ((newList_early_iff saturates).mpr both.2) early⟩

end Settles

/-- Profiles of one text: a bot's. -/
abbrev botProfiles : Profiles where
  toNostrEvents := plainEvents
  customText _ _ := none
  customFlag content _ := some (content == "bot")

/-- The founder's node knows from the guest's profile that they are an anchor. -/
def withAnchor (book : BindingBook) : Inner :=
  { Inner.start (youngStore.insert (signed guest 300 profile [] "bot")).1 [club] founder 600 with book := book }

def guestsLaptop : BindingBook := (BindingBook.new.insert (signBinding guest laptop 100 1000) 100).1

/-- An anchor without a device is never named: every look signs another list that names nobody. -/
theorem keepInbox_withAnchor :
    (@keepInbox botProfiles _ _ (@keepInbox botProfiles _ _ (withAnchor .new) 600).1 600).2.isSome = true ∧
    ((@keepInbox botProfiles _ _ (@keepInbox botProfiles _ _ (withAnchor .new) 600).1 600).2.map Event.tags) = some [] := by
  decide +kernel

theorem keepInbox_settles_guestsLaptop :
    (@keepInbox botProfiles _ _ (@keepInbox botProfiles _ _ (withAnchor guestsLaptop) 600).1 600).2 = none := by
  have anchors : (@groupAnchors botProfiles (withAnchor guestsLaptop)).toList = [guest] := by decide +kernel
  have fresh : ((withAnchor guestsLaptop).store.events.all fun row =>
      row.id != (@newList botProfiles _ (withAnchor guestsLaptop) [guest] 600).id) = true := by decide +kernel
  have device : (withAnchor guestsLaptop).book.devicesOf guest 600 ≠ [] := by decide +kernel
  have unlisted : @listOf botProfiles (withAnchor guestsLaptop) founder = none := by decide +kernel
  refine (@keepInbox_settles_iff botProfiles _ (withAnchor guestsLaptop) 600 toNat_plainAdd _ (by decide) ?_).mpr
    (.inr ⟨?_, ?_⟩)
  · intro row held same
    rw [anchors] at same
    have other := List.all_eq_true.mp fresh row held
    simp [same] at other
  · intro a anchor
    rw [← Std.ExtTreeSet.mem_toList, anchors, List.mem_singleton] at anchor
    rw [anchor]
    exact device
  · intro c held
    cases unlisted.symm.trans held

end HitEnter.App
