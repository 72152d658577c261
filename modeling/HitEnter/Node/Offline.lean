import HitEnter.Node.BothOrders
import HitEnter.Node.Grants

/-! What is signed while no node runs enters the store by a way of its own: the same
judgement and the same fold, and nothing of what a running node does besides. -/

namespace HitEnter.Node

open Wire HitEnter.Group Lib.Checks

section Offline
variable [NostrEvents]

/-- Judges and stores an event without a node. -/
def publishOffline (store : Store) (carried : List PublicKey) (me : PublicKey) (ev : Event) (now : Timestamp) :
    Store × Except Refusal Unit :=
  match (groupsIn store carried me).judge ev now with
  | .error refusal => (store, .error refusal)
  | .ok .store => ((store.insert ev).1, .ok ())
  | .ok (.foldWith group) =>
    if (GroupState.fold group (store.groupEvents group ++ [ev])).any fun s => s.applied.contains ev.id then
      ((store.insert ev).1, .ok ())
    else (store, .error .notApplied)

/-- Nothing that a running node does once `ev` is stored changes a row of `store`, which
has `ev` in it: it withdraws none, brings no binding, and silences nobody who has spoken. -/
structure Quiet [Devices] [Wraps] (store : Store) (me : PublicKey) (ev : Event) (now : Timestamp) : Prop where
  withdraws : ∀ row ∈ store.events, withdraws ev row = false
  brings : ∀ d b, openDm me ev = some d → d.sender ≠ me → d.device = some b →
    (∃ parsed, Parsed.check b now = .ok parsed) → (store.insert b).2 ≠ .new
  silences : ∀ g, groupOf ev = some g → changesState ev.kind = true →
    ∀ span ∈ (GroupState.fold g (store.groupEvents g)).elim [] GroupState.silences,
      store.authoredIn g span.who deletableKinds span.since span.until_ = []

/-- Nothing that only a running node does decides about `ev`: it keeps no wrap for somebody
else, and what passes the judgement and the fold passes the rest too, and is quiet. -/
structure Alike [Devices] [Wraps] (started : Inner) (store : Store) (carried : List PublicKey) (me : PublicKey)
    (ev : Event) (now : Timestamp) : Prop where
  ours : ev.kind = giftWrap → (groupsIn store carried me).judge ev now ≠ .error .notOurs
  booked : ∀ judgement, (groupsIn store carried me).judge ev now = .ok judgement →
    started.applies ev judgement = true → ev.kind = deviceBinding → ∃ parsed, Parsed.check ev now = .ok parsed
  passes : ∀ judgement, (groupsIn store carried me).judge ev now = .ok judgement →
    started.applies ev judgement = true →
      started.isDeleted ev = false ∧ started.isRemoved ev = false ∧ started.spaced ev = none
  quiet : ∀ judgement, (groupsIn store carried me).judge ev now = .ok judgement →
    started.applies ev judgement = true → (store.insert ev).2 = .new → Quiet (store.insert ev).1 me ev now

variable {store : Store} {carried : List PublicKey} {me : PublicKey} {ev : Event} {now : Timestamp}

/-- Only a wrap is judged by the inboxes. -/
private theorem judge_inboxes {gs : Groups} (inboxes : BTreeMap PublicKey (BTreeSet PublicKey))
    (other : ev.kind ≠ giftWrap) : { gs with inboxes := inboxes : Groups }.judge ev now = gs.judge ev now := by
  simp only [Groups.judge, other, ↓reduceIte]
  rfl

variable (now) in
/-- A wrap is judged alike with more inboxes, unless it was for nobody this node keeps
DMs for and now is for someone. -/
private theorem judge_wrap {gs : Groups} (inboxes : BTreeMap PublicKey (BTreeSet PublicKey))
    (wrap : ev.kind = giftWrap) (blank : gs.inboxes = ∅) :
    { gs with inboxes := inboxes : Groups }.judge ev now = gs.judge ev now ∨
      gs.judge ev now = .error .notOurs ∧ { gs with inboxes := inboxes : Groups }.judge ev now = .ok .store := by
  simp only [Groups.judge, Groups.judgeWrap, wrap, ↓reduceIte]
  cases refuseIf (!carriedKinds.contains giftWrap) (Refusal.kindNotCarried giftWrap) with
  | error refusal => exact .inl rfl
  | ok _ =>
    cases refuseIf (decide (Nostr.add now maxClockSkew < ev.createdAt)) Refusal.fromTheFuture with
    | error refusal => exact .inl rfl
    | ok _ =>
      cases refuseIf (decide (maxWrapBytes < (Lib.Hex.bytes ev.content).length)) Refusal.tooLarge with
      | error refusal => exact .inl rfl
      | ok _ =>
        cases orRefuse (recipientOf ev) Refusal.malformed with
        | error refusal => exact .inl rfl
        | ok recipient =>
          simp only [bind, Except.bind]
          cases refuseIf (recipient != gs.me && decide (ev.createdAt.secs + inboxKeepSecs < now.secs))
              Refusal.stale with
          | error refusal => exact .inl rfl
          | ok _ =>
            have alone : gs.keepsDmsFor gs.me recipient = (gs.me == recipient) := by
              simp [Groups.keepsDmsFor, blank]
            cases mine : gs.me == recipient with
            | true => exact .inl (by simp [Groups.keepsDmsFor, mine])
            | false =>
              rw [alone, mine]
              cases kept : Groups.keepsDmsFor { gs with inboxes := inboxes } gs.me recipient with
              | true => exact .inr ⟨rfl, rfl⟩
              | false => exact .inl rfl

/-- A wrap that passes with no inboxes is for the node's own person. -/
private theorem wrap_recipient {gs : Groups} {judgement : Judgement} (wrap : ev.kind = giftWrap) (blank : gs.inboxes = ∅)
    (ok : gs.judge ev now = .ok judgement) : recipientOf ev = some gs.me := by
  simp only [Groups.judge, Groups.judgeWrap, wrap, ↓reduceIte, bind_eq_ok, orRefuse_eq_ok, refuseIf_eq_ok] at ok
  obtain ⟨_, _, _, _, _, _, recipient, named, _, _, _, kept, _⟩ := ok
  have mine : gs.me = recipient := by simpa [Groups.keepsDmsFor, blank] using kept
  rw [named, mine]

section Rows
variable {node : Inner} {s : Store}

private theorem insert_rows : (∀ row, row ∈ (s.insert ev).1.events ↔ row ∈ s.events) ↔ (s.insert ev).2 ≠ .new := by
  constructor
  · intro same new
    have entered := (s.mem_insert ev ev).mpr (by rw [if_pos new]; exact .inl rfl)
    exact Store.fresh_of_new new ev ((same ev).mp entered) rfl
  · intro old row
    rw [Store.mem_insert, if_neg old]

private theorem remove_rows {ids : List EventId} (held : ∀ id ∈ ids, ∃ row ∈ s.events, row.id = id) :
    (∀ row, row ∈ (s.remove ids).events ↔ row ∈ s.events) ↔ ids = [] := by
  constructor
  · intro same
    refine List.eq_nil_iff_forall_not_mem.mpr fun id listed => ?_
    obtain ⟨row, member, rfl⟩ := held id listed
    exact (Store.mem_remove.mp ((same row).mpr member)).2 listed
  · rintro rfl row
    simp

private theorem authoredIn_held {g who : PublicKey} {kinds : List Kind} {since : Timestamp} {until_ : Option Timestamp} :
    ∀ id ∈ s.authoredIn g who kinds since until_, ∃ row ∈ s.events, row.id = id := by
  intro id listed
  unfold Store.authoredIn at listed
  split at listed
  · cases listed
  · obtain ⟨row, found, same⟩ := List.mem_map.mp listed
    exact ⟨row, (Store.mem_query.mp found).1, same⟩

private theorem purge_rows {g : PublicKey} :
    (∀ row, row ∈ (node.purgeSilenced g).store.events ↔ row ∈ node.store.events) ↔
      ∀ span ∈ (node.groups.state g).elim [] GroupState.silences,
        node.store.authoredIn g span.who deletableKinds span.since span.until_ = [] := by
  have held : ∀ id ∈ node.silenced g, ∃ row ∈ node.store.events, row.id = id := by
    intro id listed
    obtain ⟨span, _, named⟩ := List.mem_flatMap.mp listed
    exact authoredIn_held id named
  unfold Inner.purgeSilenced Inner.remove
  rw [remove_rows held, Inner.silenced, List.flatMap_eq_nil_iff]

section Devices
variable [Devices]

variable (node) in
private theorem bookBinding_ok {b : Event} (kind : b.kind = deviceBinding) :
    (∃ booked, node.bookBinding b now = .ok booked) ↔ ∃ parsed, Parsed.check b now = .ok parsed := by
  simp only [Inner.bookBinding, kind, ↓reduceIte, BindingBook.insert]
  split
  · rename_i refusal inserted
    split at inserted
    · rename_i refused
      simp [refused]
    · split at inserted
      all_goals cases inserted
  · rename_i book how inserted
    split at inserted
    · cases inserted
    · rename_i parsed checked
      simp [checked]

private theorem bookBinding_checks (ev : Event) {b : Event} {booked : Inner}
    (entered : node.bookBinding b now = .ok booked) :
    booked.isDeleted ev = node.isDeleted ev ∧ booked.isRemoved ev = node.isRemoved ev ∧
      booked.spaced ev = node.spaced ev := by
  obtain ⟨groups, rows, _⟩ := Inner.bookBinding_ok entered
  refine ⟨by rw [Inner.isDeleted, rows, Inner.isDeleted], by rw [Inner.isRemoved, rows, Inner.isRemoved], ?_⟩
  rw [Inner.spaced, Inner.tooSoon, rows, groups, Inner.spaced, Inner.tooSoon]

/-- A binding that reaches a node outside any group adds a row if it passes the checks of
any binding and the store takes it. -/
private theorem learnBinding_rows {b : Event} {person : PublicKey} (own : b.pubkey = person) :
    (∀ row, row ∈ (node.learnBinding b person now).store.events ↔ row ∈ node.store.events) ↔
      ((∃ parsed, Parsed.check b now = .ok parsed) → (node.store.insert b).2 ≠ .new) := by
  unfold Inner.learnBinding
  split
  · rename_i unfit
    have refused : ¬ ∃ parsed, Parsed.check b now = .ok parsed := by
      rintro ⟨parsed, checked⟩
      have passed := (Parsed.check_ok checked).1
      simp [passed.kind, own, passed.signed] at unfit
    simp [refused]
  · rename_i fits
    have kind : b.kind = deviceBinding := by
      simp only [not_or, not_not] at fits
      exact fits.1
    rw [← bookBinding_ok node kind]
    split
    · rename_i refused
      simp [refused]
    · rename_i booked entered
      rw [← (Inner.bookBinding_ok entered).2.1]
      simp only [entered, Except.ok.injEq, exists_eq', forall_const]
      exact insert_rows

section Wraps
variable [Wraps]

omit [Devices] in
/-- The binding a DM brings is its sender's. -/
private theorem openDm_device {d : Dm} {b : Event} (opened : openDm me ev = some d) (device : d.device = some b) :
    ev.kind = giftWrap ∧ b.pubkey = d.sender := by
  unfold openDm at opened
  split at opened
  · cases opened
  · rename_i wrap
    simp only [not_or, not_not] at wrap
    simp only [Option.bind_eq_bind, Option.bind_eq_some_iff] at opened
    obtain ⟨⟨sender, rumor⟩, _, recipient, _, file, _, built⟩ := opened
    cases built
    exact ⟨wrap.1, by simpa using (Option.filter_eq_some_iff.mp device).2⟩

private theorem openWrap_rows (mine : node.groups.me = me) :
    (∀ row, row ∈ (node.openWrap ev now).store.events ↔ row ∈ node.store.events) ↔
      ∀ d b, openDm me ev = some d → d.sender ≠ me → d.device = some b →
        (∃ parsed, Parsed.check b now = .ok parsed) → (node.store.insert b).2 ≠ .new := by
  subst mine
  unfold Inner.openWrap
  split
  · rename_i closed
    simp [closed]
  · rename_i d opened
    have granted : (d.file.elim node fun f => (node.grantBlob f.hash d.sender).grantBlob f.hash d.recipient).store =
        node.store := by
      cases d.file with
      | none => rfl
      | some f =>
        simp only [Option.elim_some, Inner.grantBlob]
        split <;> split <;> rfl
    simp only [opened, Option.some.injEq]
    split
    · rename_i own
      rw [granted]
      refine iff_of_true (fun _ => Iff.rfl) ?_
      rintro d' b rfl other
      exact absurd own other
    · rename_i other
      cases device : d.device with
      | none =>
        rw [Option.elim_none, granted]
        refine iff_of_true (fun _ => Iff.rfl) ?_
        rintro d' b rfl _ listed
        rw [device] at listed
        cases listed
      | some b =>
        rw [Option.elim_some, ← granted, learnBinding_rows (openDm_device opened device).2]
        constructor
        · rintro brings d' b' rfl _ listed
          obtain rfl := Option.some.inj (device.symm.trans listed)
          exact brings
        · exact fun brings => brings d b rfl other device

/-- What follows once an event of the node's own is stored. -/
private theorem follow_rows (mine : node.groups.me = me) (own : ev.kind = giftWrap → recipientOf ev = some me)
    (carries : ∀ g, groupOf ev = some g → node.groups.carried.contains g = true) :
    (∀ row, row ∈ (node.follow ev .new now).store.events ↔ row ∈ node.store.events) ↔ Quiet node.store me ev now := by
  have closed : ev.kind ≠ giftWrap → ∀ d, openDm me ev ≠ some d := by
    intro other d opened
    simp [openDm, other] at opened
  have still : ev.kind ≠ deletion → ev.kind ≠ deleteEvent → ∀ row, withdraws ev row = false := by
    intro notDeletion notRemoval row
    simp [Node.withdraws, notDeletion, notRemoval]
  by_cases withdrawal : ev.kind = deletion ∨ ev.kind = deleteEvent
  · have said : changesState ev.kind = false ∧ ev.kind ≠ giftWrap := by
      rcases withdrawal with kind | kind
      all_goals
        rw [kind]
        decide +kernel
    simp only [mem_follow_withdrawal withdrawal, and_iff_left_iff_imp]
    constructor
    · intro kept
      exact ⟨kept, fun d b opened => absurd opened (closed said.2 d), fun g _ changes => by simp [said.1] at changes⟩
    · exact Quiet.withdraws
  · obtain ⟨notDeletion, notRemoval⟩ := not_or.mp withdrawal
    have spares := still notDeletion notRemoval
    by_cases wrap : ev.kind = giftWrap
    · have follows : node.follow ev .new now = node.openWrap ev now := by
        have kinds : giftWrap ≠ deletion ∧ giftWrap ≠ deleteEvent := by decide
        have kept : (node.openWrap ev now).groups.me = me := by rw [Inner.SameGroups.openWrap.groups, mine]
        simp [Inner.follow, wrap, kinds, Inner.keepInbox, own wrap, kept]
      rw [follows, openWrap_rows mine]
      constructor
      · intro brings
        refine ⟨fun row _ => spares row, brings, fun g named => ?_⟩
        exact absurd wrap (group_not_personal named).1
      · exact Quiet.brings
    · by_cases list : ev.kind = inboxList
      · have follows : (node.follow ev .new now).store = node.store := by
          have kinds : inboxList ≠ deletion ∧ inboxList ≠ deleteEvent ∧ inboxList ≠ giftWrap := by decide
          simp [Inner.follow, list, kinds, Inner.setInboxes]
        rw [follows]
        refine iff_of_true (fun _ => Iff.rfl) ?_
        refine ⟨fun row _ => spares row, fun d b opened => absurd opened (closed wrap d), fun g named => ?_⟩
        have personal : isPersonal inboxList = true := by decide
        rw [← list, (group_not_personal named).2] at personal
        cases personal
      · cases named : groupOf ev with
        | none =>
          have follows : node.follow ev .new now = node := by
            simp [Inner.follow, notDeletion, notRemoval, wrap, list, named]
          rw [follows]
          refine iff_of_true (fun _ => Iff.rfl) ?_
          exact ⟨fun row _ => spares row, fun d b opened => absurd opened (closed wrap d), fun g here => by
            rw [named] at here
            cases here⟩
        | some g =>
          cases changes : changesState ev.kind with
          | false =>
            have follows : node.follow ev .new now = node := by
              simp [Inner.follow, notDeletion, notRemoval, wrap, list, named, changes]
            rw [follows]
            refine iff_of_true (fun _ => Iff.rfl) ?_
            exact ⟨fun row _ => spares row, fun d b opened => absurd opened (closed wrap d), fun _ _ here => by
              rw [changes] at here
              cases here⟩
          | true =>
            have follows : node.follow ev .new now = (node.refold g).purgeSilenced g := by
              simp [Inner.follow, notDeletion, notRemoval, wrap, list, named, changes]
            have folded : (node.refold g).groups.state g = GroupState.fold g (node.store.groupEvents g) := by
              simp [Inner.refold, Inner.setState, Groups.state_setState, carries g named, Inner.foldOf]
            have rows : (node.refold g).store = node.store := rfl
            rw [follows, ← rows, purge_rows, folded, rows]
            constructor
            · intro silences
              refine ⟨fun row _ => spares row, fun d b opened => absurd opened (closed wrap d), fun other here _ => ?_⟩
              obtain rfl := Option.some.inj (named.symm.trans here)
              exact silences
            · exact fun quiet => quiet.silences g named changes

end Wraps

end Devices

end Rows

section Started
variable [Devices] {received : BTreeMap EventId Timestamp} {grants : List (String × PublicKey)}

variable (store carried me now received grants) in
private theorem start_groups : ∃ inboxes, (Inner.start store carried me now received grants).groups =
    { groupsIn store carried me with inboxes := inboxes } := by
  simp only [Inner.start]
  generalize store.query _ = lists
  generalize groupsIn store carried me = gs
  induction lists generalizing gs with
  | nil => exact ⟨_, rfl⟩
  | cons list rest ih =>
    obtain ⟨inboxes, same⟩ := ih (gs.setInboxes list.pubkey (inboxNpubs list))
    exact ⟨inboxes, same⟩

variable (store carried me ev now received grants) in
/-- A node that has just started takes what it signed as the judgement without a node
does, and keeps a wrap of its own for whoever it is for. -/
private theorem judged_start : (Inner.start store carried me now received grants).judged ev .local_ now =
    if ev.kind = giftWrap ∧ (groupsIn store carried me).judge ev now = .error .notOurs then .ok .store
    else (groupsIn store carried me).judge ev now := by
  obtain ⟨inboxes, groups⟩ := start_groups store carried me now received grants
  unfold Inner.judged
  rw [groups]
  by_cases wrap : ev.kind = giftWrap
  · rcases judge_wrap now inboxes wrap (Inner.groupsIn_blank store carried me).2 with
      same | ⟨stranger, kept⟩
    · rw [same]
      split
      · rename_i refused
        simp only [wrap, refused, and_self, ↓reduceIte]
      · rename_i other
        simp only [wrap, true_and]
        rw [if_neg other]
    · simp only [kept, wrap, stranger, and_self, ↓reduceIte]
  · rw [judge_inboxes inboxes wrap]
    simp only [wrap, false_and, and_false, ↓reduceIte]
    split
    · rename_i refused
      exact refused.symm
    · rfl

variable (received grants) in
private theorem publishOffline_passed {judgement : Judgement}
    (judged : (groupsIn store carried me).judge ev now = .ok judgement) :
    publishOffline store carried me ev now =
      if (Inner.start store carried me now received grants).applies ev judgement = true then
        ((store.insert ev).1, .ok ())
      else (store, .error .notApplied) := by
  cases judgement with
  | store => simp [publishOffline, judged, Inner.applies]
  | foldWith g =>
    simp only [publishOffline, judged, Inner.applies]
    rfl

variable [Wraps]

/-- What a node that has just started leaves of an event that passes everything. -/
private theorem passed_rows {judgement : Judgement} {booked : Inner}
    (judged : (groupsIn store carried me).judge ev now = .ok judgement)
    (passed : Inner.Passed (Inner.start store carried me now received grants) ev .local_ now judgement booked) :
    (∀ row, row ∈ (store.insert ev).1.events ↔
      row ∈ ((Inner.start store carried me now received grants).acceptEvent ev .local_ now).1.store.events) ↔
        ((store.insert ev).2 = .new → Quiet (store.insert ev).1 me ev now) := by
  obtain ⟨inboxes, groups⟩ := start_groups store carried me now received grants
  obtain ⟨same, rows, _⟩ := Inner.bookBinding_ok passed.entered
  have blank := Inner.groupsIn_blank store carried me
  have how : (booked.insert ev now).2 = (store.insert ev).2 := by
    rw [Inner.insert, rows]
    rfl
  have left : (booked.insert ev now).1.store = (store.insert ev).1 := by
    rw [Inner.insert, rows]
    rfl
  rw [passed.out, how]
  by_cases new : (store.insert ev).2 = .new
  · have mine : (booked.insert ev now).1.groups.me = me := by
      change booked.groups.me = me
      rw [same, groups]
      exact blank.1
    have own : ev.kind = giftWrap → recipientOf ev = some me := by
      intro wrap
      rw [wrap_recipient wrap blank.2 judged, blank.1]
    have carries : ∀ g, groupOf ev = some g → (booked.insert ev now).1.groups.carried.contains g = true := by
      intro g named
      obtain ⟨g', slot, named', carried'⟩ := judge_carried judged (isGroupKind_of_groupOf named)
      obtain rfl := Option.some.inj (named.symm.trans named')
      change booked.groups.carried.contains g = true
      rw [same, groups]
      exact Std.ExtTreeMap.contains_eq_isSome_getElem?.trans (by rw [carried']; rfl)
    rw [new, ← left]
    simp only [forall_const]
    rw [← follow_rows mine own carries]
    exact forall_congr' fun row => iff_comm
  · have idle : (booked.insert ev now).1.follow ev (store.insert ev).2 now = (booked.insert ev now).1 := if_pos new
    rw [idle, left]
    exact iff_of_true (fun _ => Iff.rfl) fun fresh => absurd fresh new

end Started

end Offline

/-- What is published without a node is what a node just started on the same store takes,
and leaves the same rows, if and only if nothing that only a running node does decides. -/
theorem publishOffline_alike [NostrEvents] [Devices] [Wraps] (store : Store) (carried : List PublicKey) (me : PublicKey)
    (received : BTreeMap EventId Timestamp) (grants : List (String × PublicKey)) (ev : Event) (now : Timestamp) :
    ((publishOffline store carried me ev now).2.isOk =
        ((Inner.start store carried me now received grants).acceptEvent ev .local_ now).2.accepted ∧
      ∀ row, row ∈ (publishOffline store carried me ev now).1.events ↔
        row ∈ ((Inner.start store carried me now received grants).acceptEvent ev .local_ now).1.store.events) ↔
      Alike (Inner.start store carried me now received grants) store carried me ev now := by
  have online := judged_start store carried me ev now received grants
  cases judged : (groupsIn store carried me).judge ev now with
  | error refusal =>
    have offline : publishOffline store carried me ev now = (store, .error refusal) := by
      rw [publishOffline, judged]
    by_cases kept : ev.kind = giftWrap ∧ refusal = .notOurs
    · obtain ⟨wrap, rfl⟩ := kept
      rw [judged, if_pos ⟨wrap, rfl⟩] at online
      have kinds : giftWrap ≠ deviceBinding ∧ deletableKinds.contains giftWrap = false ∧ giftWrap ≠ chatMessage := by
        decide
      have passed : Inner.Passed (Inner.start store carried me now received grants) ev .local_ now .store
          (Inner.start store carried me now received grants) := by
        refine ⟨online, rfl, Inner.bookBinding_of_other (wrap ▸ kinds.1), ?_, ?_, ?_⟩
        · rw [Inner.isDeleted, wrap, kinds.2.1, Bool.false_and]
        · rw [Inner.isRemoved, wrap, kinds.2.1, Bool.false_and]
        · rw [Inner.spaced, wrap, if_neg kinds.2.2]
      rw [offline, passed.out]
      refine iff_of_false (fun agree => ?_) fun alike => alike.ours wrap judged
      cases agree.1
    · rw [judged, if_neg fun both => kept ⟨both.1, Except.error.inj both.2⟩] at online
      have refused : (Inner.start store carried me now received grants).acceptEvent ev .local_ now =
          (Inner.start store carried me now received grants, .blocked refusal) := by
        rw [Inner.acceptEvent, online]
      rw [offline, refused]
      refine iff_of_true ⟨rfl, fun _ => Iff.rfl⟩ ⟨fun wrap same => ?_, ?_, ?_, ?_⟩
      · exact kept ⟨wrap, Except.error.inj (judged.symm.trans same)⟩
      all_goals
        intro judgement ok
        rw [judged] at ok
        cases ok
  | ok judgement =>
    have offline := publishOffline_passed received grants judged
    rw [judged, if_neg fun both => by cases both.2] at online
    by_cases applied : (Inner.start store carried me now received grants).applies ev judgement = true
    · rw [if_pos applied] at offline
      rcases (Inner.start store carried me now received grants).acceptEvent_cases ev .local_ now with
        ⟨judgement', booked, passed⟩ | ⟨_, refused⟩
      · obtain rfl := Except.ok.inj (online.symm.trans passed.judged)
        obtain ⟨deleted, removed, spaced⟩ := bookBinding_checks ev passed.entered
        have rows := passed_rows judged passed
        rw [passed.out] at rows
        rw [offline, passed.out, rows]
        constructor
        · rintro ⟨_, quiet⟩
          refine ⟨fun _ same => ?_, fun _ _ _ kind => ?_, fun _ _ _ => ?_, fun _ _ _ => quiet⟩
          · rw [judged] at same
            cases same
          · exact (bookBinding_ok _ kind).mp ⟨booked, passed.entered⟩
          · exact ⟨deleted ▸ passed.undeleted, removed ▸ passed.unremoved, spaced ▸ passed.spaced⟩
        · exact fun alike => ⟨rfl, alike.quiet judgement judged applied⟩
      · rw [offline, refused]
        refine iff_of_false (fun agree => ?_) fun alike => ?_
        · cases agree.1
        · obtain ⟨booked, entered⟩ : ∃ booked,
              (Inner.start store carried me now received grants).bookBinding ev now = .ok booked := by
            by_cases kind : ev.kind = deviceBinding
            · exact (bookBinding_ok _ kind).mpr (alike.booked judgement judged applied kind)
            · exact ⟨_, Inner.bookBinding_of_other kind⟩
          obtain ⟨deleted, removed, spaced⟩ := bookBinding_checks ev entered
          obtain ⟨undeleted, unremoved, free⟩ := alike.passes judgement judged applied
          have passed : Inner.Passed (Inner.start store carried me now received grants) ev .local_ now judgement booked :=
            ⟨online, applied, entered, deleted.trans undeleted, removed.trans unremoved, spaced.trans free⟩
          rw [passed.out] at refused
          cases refused
    · have blocked : (Inner.start store carried me now received grants).acceptEvent ev .local_ now =
          (Inner.start store carried me now received grants, .blocked .notApplied) := by
        simp [Inner.acceptEvent, online, applied]
      rw [offline, if_neg applied, blocked]
      refine iff_of_true ⟨rfl, fun _ => Iff.rfl⟩ ⟨fun _ same => ?_, ?_, ?_, ?_⟩
      · rw [judged] at same
        cases same
      all_goals
        intro judgement' ok applied'
        obtain rfl := Except.ok.inj (judged.symm.trans ok)
        exact absurd applied' applied

/-- The store of the club, with what the guest has said in it. -/
def spokenStore : Store := (youngStore.insert (hello 500)).1

/-- The founder bans the guest, from before they spoke. -/
def earlierBan : Event := (Draft.banUser club guest).sign founder 450

/-- Without a node the guest's message stays; a node that takes the same ban drops it. -/
theorem earlierBan_spares : earlierBan.pubkey = founder ∧
    (publishOffline spokenStore [club] founder earlierBan 600).2.isOk = true ∧
    ((Inner.start spokenStore [club] founder 600).acceptEvent earlierBan .local_ 600).2 = .stored .new ∧
    hello 500 ∈ (publishOffline spokenStore [club] founder earlierBan 600).1.events ∧
    hello 500 ∉ ((Inner.start spokenStore [club] founder 600).acceptEvent earlierBan .local_ 600).1.store.events := by
  decide +kernel

end HitEnter.Node
