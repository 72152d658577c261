import HitEnter.Node.Silenced

/-! The anchors recorded for each person, beside the inbox list that the store holds of
theirs. The store lets the newer list in at once; its anchors are written a step later. -/

namespace HitEnter.Node

open Wire HitEnter.Group Lib.Runs Lib.Turns

private theorem aside_of_list {row : Event} (kind : row.kind = inboxList) :
    (row.kind ≠ deviceBinding ∧ row.kind ≠ giftWrap) ∧ deletableKinds.contains row.kind = false := by
  rw [kind]
  decide

section Lists
variable [Nostr] {s t : Store} {person : PublicKey} {list : Event}

/-- The inbox list held of a person. -/
def Store.inboxOf (s : Store) (person : PublicKey) : Option Event :=
  s.events.find? fun row => row.kind == inboxList && row.pubkey == person

/-- A person has one inbox list at most. -/
private theorem sameSlot_lists {a b : Event} (first : a.kind = inboxList) (second : b.kind = inboxList)
    (same : a.pubkey = b.pubkey) : sameSlot a b = true := by
  have replaceable : inboxList = 0 ∨ inboxList = 3 ∨ 10000 ≤ inboxList ∧ inboxList < 20000 := by decide
  have slots : ∀ ev : Event, ev.kind = inboxList → slotD ev = some "" := by
    intro ev kind
    rw [slotD, slot, kind, if_pos replaceable]
  simp [sameSlot, slots a first, slots b second, first, second, same]

theorem Store.inboxOf_eq_some :
    s.inboxOf person = some list ↔ list ∈ s.events ∧ list.kind = inboxList ∧ list.pubkey = person := by
  constructor
  · intro found
    have fits := List.find?_some found
    simp only [Bool.and_eq_true, beq_iff_eq] at fits
    exact ⟨List.mem_of_find?_eq_some found, fits⟩
  · rintro ⟨held, kind, own⟩
    cases found : s.inboxOf person with
    | none =>
      have absent := List.find?_eq_none.mp found list held
      simp [kind, own] at absent
    | some other =>
      have fits := List.find?_some found
      simp only [Bool.and_eq_true, beq_iff_eq] at fits
      rw [s.eq_of_sameSlot (List.mem_of_find?_eq_some found) held (sameSlot_lists fits.1 kind (fits.2.trans own.symm))]

theorem Store.inboxOf_congr (same : ∀ row : Event, row.kind = inboxList → row.pubkey = person →
    (row ∈ t.events ↔ row ∈ s.events)) : t.inboxOf person = s.inboxOf person := by
  refine Option.ext fun list => ?_
  rw [Store.inboxOf_eq_some, Store.inboxOf_eq_some]
  constructor
  · rintro ⟨held, kind, own⟩
    exact ⟨(same list kind own).mp held, kind, own⟩
  · rintro ⟨held, kind, own⟩
    exact ⟨(same list kind own).mpr held, kind, own⟩

end Lists

section Anchors
variable [Nostr] [Devices] {gs : Groups} {lists : List Event} {person : PublicKey}

/-- What is recorded of a list: its anchors, or nothing where it names none. -/
def anchorsOf (list : Event) : Option (BTreeSet PublicKey) :=
  if (inboxNpubs list).isEmpty then none else some (inboxNpubs list)

/-- For each person the anchors recorded are those of the list held. -/
def Inner.Anchored (node : Inner) : Prop :=
  ∀ person, node.groups.inboxes[person]? = (node.store.inboxOf person).bind anchorsOf

/-- Writing a list's anchors records them for its author, and leaves everyone else's. -/
theorem setInboxes_getElem {list : Event} :
    (gs.setInboxes list.pubkey (inboxNpubs list)).inboxes[person]? =
      if list.pubkey = person then anchorsOf list else gs.inboxes[person]? := by
  unfold Groups.setInboxes anchorsOf
  split
  · simp only [Std.ExtTreeMap.getElem?_erase, compare_eq_iff_eq]
  · simp only [Std.ExtTreeMap.getElem?_insert, compare_eq_iff_eq]

variable (gs person) in
/-- Of lists that are the only ones of their authors, each is recorded. -/
private theorem foldl_setInboxes (single : ∀ a ∈ lists, ∀ b ∈ lists, a.pubkey = b.pubkey → a = b) :
    (lists.foldl (fun gs list => gs.setInboxes list.pubkey (inboxNpubs list)) gs).inboxes[person]? =
      (lists.find? (·.pubkey == person)).elim (gs.inboxes[person]?) anchorsOf := by
  induction lists generalizing gs with
  | nil => rfl
  | cons list rest ih =>
    have single' : ∀ a ∈ rest, ∀ b ∈ rest, a.pubkey = b.pubkey → a = b := fun a first b second =>
      single a (List.mem_cons_of_mem list first) b (List.mem_cons_of_mem list second)
    rw [List.foldl_cons, ih _ single', List.find?_cons]
    cases found : rest.find? (·.pubkey == person) with
    | none =>
      rw [Option.elim_none, setInboxes_getElem]
      by_cases own : list.pubkey = person
      · simp [own]
      · have apart : (list.pubkey == person) = false := beq_eq_false_iff_ne.mpr own
        simp [own, apart]
    | some other =>
      have named : other.pubkey = person := by simpa using List.find?_some found
      by_cases own : list.pubkey = person
      · have same : other = list :=
          single other (List.mem_cons_of_mem list (List.mem_of_find?_eq_some found)) list List.mem_cons_self
            (named.trans own.symm)
        simp [own, same]
      · have apart : (list.pubkey == person) = false := beq_eq_false_iff_ne.mpr own
        simp [apart]

end Anchors

section Run
variable [NostrEvents] [Devices]

/-- A node starts with the anchors of the lists it holds. -/
theorem start_anchored (store : Store) (carried : List PublicKey) (me : PublicKey) (now : Timestamp)
    (received : BTreeMap EventId Timestamp) (grants : List (String × PublicKey)) :
    (Inner.start store carried me now received grants).Anchored := by
  intro person
  have listed : ∀ row : Event,
      row ∈ store.query { kinds := some [inboxList] } ↔ row ∈ store.events ∧ row.kind = inboxList := by
    intro row
    simp [Store.mem_query, Filter.selects, Store.reaches, and_comm]
  have single : ∀ a ∈ store.query { kinds := some [inboxList] }, ∀ b ∈ store.query { kinds := some [inboxList] },
      a.pubkey = b.pubkey → a = b := by
    intro a first b second same
    obtain ⟨held, kind⟩ := (listed a).mp first
    obtain ⟨held', kind'⟩ := (listed b).mp second
    exact store.eq_of_sameSlot held held' (sameSlot_lists kind kind' same)
  have recorded := foldl_setInboxes (groupsIn store carried me) person single
  have found : (store.query { kinds := some [inboxList] }).find? (·.pubkey == person) = store.inboxOf person := by
    refine Option.ext fun list => ?_
    rw [Store.inboxOf_eq_some]
    constructor
    · intro found
      obtain ⟨held, kind⟩ := (listed list).mp (List.mem_of_find?_eq_some found)
      exact ⟨held, kind, by simpa using List.find?_some found⟩
    · rintro ⟨held, kind, own⟩
      have member := (listed list).mpr ⟨held, kind⟩
      cases other : (store.query { kinds := some [inboxList] }).find? (·.pubkey == person) with
      | none =>
        have absent := List.find?_eq_none.mp other list member
        simp [own] at absent
      | some first =>
        have named : first.pubkey = person := by simpa using List.find?_some other
        rw [single first (List.mem_of_find?_eq_some other) list member (named.trans own.symm)]
  rw [found] at recorded
  refine recorded.trans ?_
  change _ = (store.inboxOf person).bind anchorsOf
  have blank : (groupsIn store carried me).inboxes[person]? = none := by simp [Inner.groupsIn_blank]
  cases store.inboxOf person with
  | none => exact blank
  | some list => rfl

variable [Wraps] {h : Host} {i : ℕ} {t : Task} {known : List Event}

/-- Nothing but the node's own calls and looks, each event one of `known`; and when a
call writes the anchors of a list, the list held of its author is one whose anchors are yet
to be written, be it the same. -/
def Host.lists (known : List Event) (h : Host) : Host.Act → Bool
  | .write _ _ => false
  | .enter ev _ _ => known.contains ev
  | .turn i => ((h.tasks[i]?).bind Task.lists).all fun list =>
      h.tasks.any fun t => t.lists.isSome && t.lists == h.shared.store.inboxOf list.pubkey
  | _ => true

/-- A person's anchors are those of the list held, or about to be written. -/
private structure Due (known : List Event) (h : Host) : Prop where
  up : h.starting = .up
  sane : h.Sane
  named : h.Named known
  due : ∀ person, h.shared.groups.inboxes[person]? = (h.shared.store.inboxOf person).bind anchorsOf ∨
    ∃ t ∈ h.tasks, t.lists.isSome = true ∧ t.lists = h.shared.store.inboxOf person

open Host

/-- The lists held after a turn are those held before, but for one that is stored. -/
private theorem Due.held (inv : Due known h) (distinct : (known.map Event.id).Nodup) (turned : Turned h i t)
    (person : PublicKey) : (h.step (.turn i)).shared.store.inboxOf person = h.shared.store.inboxOf person ∨
      ∃ list, t.stores = some list ∧ (t.next h.shared).2.lists = some list ∧ list.pubkey = person ∧
        (h.step (.turn i)).shared.store.inboxOf person = some list := by
  rw [turned.shared]
  have member := List.mem_of_getElem? turned.here
  -- For a row of another author or kind the slot that is replaced is another.
  cases stores : t.stores with
  | none =>
    left
    refine Store.inboxOf_congr fun row kind _ => ?_
    obtain ⟨aside, firm⟩ := aside_of_list kind
    rcases Task.rows_next t h.shared aside with ⟨ev, stores', _⟩ | ⟨_, before, after⟩
    · rw [stores] at stores'
      cases stores'
    · exact ⟨before, fun held => after firm held (inv.named.spared distinct member held aside firm)⟩
  | some ev =>
    have rows : ∀ row : Event, row.kind = inboxList →
        (row ∈ (t.next h.shared).1.store.events ↔ row ∈ (h.shared.store.insert ev).1.events) := by
      intro row kind
      rcases Task.rows_next t h.shared (aside_of_list kind).1 with ⟨ev', stores', rows⟩ | ⟨idle, _⟩
      · rw [stores] at stores'
        cases stores'
        exact rows
      · rw [stores] at idle
        cases idle
    by_cases takes : ev.kind = inboxList ∧ ev.pubkey = person ∧ (h.shared.store.insert ev).2 = .new
    · obtain ⟨kind, own, new⟩ := takes
      refine .inr ⟨ev, rfl, Task.lists_next stores kind new, own, Store.inboxOf_eq_some.mpr ⟨?_, kind, own⟩⟩
      rw [rows ev kind, Store.mem_insert, if_pos new]
      exact .inl rfl
    · left
      refine Store.inboxOf_congr fun row kind own => ?_
      rw [rows row kind, Store.mem_insert]
      split
      · rename_i new
        constructor
        · rintro (rfl | ⟨held, _⟩)
          · exact absurd ⟨kind, own, new⟩ takes
          · exact held
        · refine fun held => .inr ⟨held, Bool.eq_false_iff.mpr fun same => ?_⟩
          simp only [sameSlot, Bool.and_eq_true, beq_iff_eq] at same
          exact takes ⟨same.1.1.2.trans kind, same.1.2.trans own, new⟩
      · rfl

private theorem Due.turn (inv : Due known h) (distinct : (known.map Event.id).Nodup) (turned : Turned h i t)
    (meets : h.lists known (.turn i) = true) (person : PublicKey) :
    (h.step (.turn i)).shared.groups.inboxes[person]? =
        ((h.step (.turn i)).shared.store.inboxOf person).bind anchorsOf ∨
      ∃ u ∈ (h.step (.turn i)).tasks, u.lists.isSome = true ∧
        u.lists = (h.step (.turn i)).shared.store.inboxOf person := by
  rcases inv.held distinct turned person with same | ⟨list, _, writes, _, held⟩
  · rw [same]
    cases lists : t.lists with
    | none =>
      have recorded : (h.step (.turn i)).shared.groups.inboxes = h.shared.groups.inboxes := by
        rw [turned.shared]
        exact Task.inboxes_next lists
      rw [recorded]
      refine (inv.due person).imp_right ?_
      rintro ⟨u, listed, writes, due⟩
      rcases turned.stays listed with rfl | after
      · rw [lists] at writes
        cases writes
      · exact ⟨u, after, writes, due⟩
    | some list =>
      have recorded : (h.step (.turn i)).shared.groups.inboxes[person]? =
          if list.pubkey = person then anchorsOf list else h.shared.groups.inboxes[person]? := by
        rw [turned.shared, (Task.next_of_lists lists).1]
        exact setInboxes_getElem
      rw [recorded]
      by_cases own : list.pubkey = person
      · -- The list held is this one, or another call is still to write its anchors.
        subst own
        have some_ : h.tasks.any (fun t => t.lists.isSome && t.lists == h.shared.store.inboxOf list.pubkey) = true := by
          simpa [Host.lists, turned.here, lists] using meets
        obtain ⟨u, listed, due⟩ := List.any_eq_true.mp some_
        rw [Bool.and_eq_true, beq_iff_eq] at due
        rcases turned.stays listed with rfl | after
        · left
          rw [if_pos rfl, ← due.2, lists]
          rfl
        · exact .inr ⟨u, after, due⟩
      · rw [if_neg own]
        refine (inv.due person).imp_right ?_
        rintro ⟨u, listed, writes, due⟩
        rcases turned.stays listed with rfl | after
        · rw [lists] at due
          exact absurd (Store.inboxOf_eq_some.mp due.symm).2.2 own
        · exact ⟨u, after, writes, due⟩
  · right
    refine ⟨_, turned.after, ?_, ?_⟩
    · rw [writes]
      rfl
    · rw [writes, held]

private theorem Due.step (inv : Due known h) (distinct : (known.map Event.id).Nodup) (act : Host.Act)
    (meets : h.lists known act = true) : Due known (h.step act) := by
  have brings : ∀ ev, act.brings = some ev → ev ∈ known := by
    intro ev brought
    cases act with
    | enter ev' source now =>
      cases brought
      exact List.contains_iff_mem.mp meets
    | write ev' now => cases meets
    | load => cases brought
    | look => cases brought
    | turn i => cases brought
  refine ⟨step_up inv.up act, inv.sane.step act, inv.named.step brings, fun person => ?_⟩
  have taken : ∀ {task : Task}, (h.take task).shared.groups.inboxes[person]? =
        ((h.take task).shared.store.inboxOf person).bind anchorsOf ∨
      ∃ u ∈ (h.take task).tasks, u.lists.isSome = true ∧ u.lists = (h.take task).shared.store.inboxOf person := by
    intro task
    simp only [Host.take, inv.up]
    refine (inv.due person).imp_right ?_
    rintro ⟨u, listed, due⟩
    exact ⟨u, List.mem_append_left _ listed, due⟩
  cases act with
  | load =>
    have still : h.step .load = h := by simp only [Host.step, Host.load, inv.up]
    rw [still]
    exact inv.due person
  | enter ev source now => exact taken
  | look => exact taken
  | write ev now => cases meets
  | turn i =>
    rcases turn_cases h i with same | ⟨t, turned⟩
    · rw [same]
      exact inv.due person
    · exact inv.turn distinct turned meets person

end Run

/-- Once every call has ended the anchors recorded for each person are those of the list
held, if a call only writes a list's while those of the list held are still to be written. -/
theorem anchored_run [NostrEvents] [Devices] [Wraps] {store : Store} {carried : List PublicKey} {me : PublicKey}
    {now : Timestamp} {received : BTreeMap EventId Timestamp} {grants : List (String × PublicKey)}
    {known : List Event} {acts : List Host.Act} (distinct : (known.map Event.id).Nodup)
    (kept : ∀ row ∈ store.events, row ∈ known)
    (met : Met (Host.lists known) Host.step (Host.started store carried me now received grants) acts)
    (ended : ∀ t ∈ (run Host.step (Host.started store carried me now received grants) acts).tasks, t.isEnded = true) :
    (run Host.step (Host.started store carried me now received grants) acts).shared.Anchored := by
  have initial : Due known (Host.started store carried me now received grants) := by
    refine ⟨rfl, ⟨?_, ?_⟩, ⟨fun row held _ => kept row held, ?_, ?_⟩, fun person => .inl ?_⟩
    · intro i j t u _ here
      cases here
    · intro c listed
      cases listed
    · intro c listed
      cases listed
    · intro t listed
      cases listed
    · exact start_anchored store carried me now received grants person
  have due := run_invariant (fun _ act meets (inv : Due known _) => inv.step distinct act meets) met initial
  intro person
  rcases due.due person with recorded | ⟨t, listed, writes, _⟩
  · exact recorded
  · have over_ := ended t listed
    rcases t with ⟨ev, source, now, phase⟩ | l
    · cases phase <;> simp [Task.isEnded, Phase.isEnded, Task.lists] at over_ writes
    · cases writes

/-- The guest names `anchor` to keep their direct messages. -/
def guestsList (date : Timestamp) (anchor : PublicKey) : Event :=
  signed guest date inboxList [["anchor", Nostr.toHex anchor]] ""

/-- Two lists of the guest's come at once, and both are stored; then the turns of `last`. -/
def listsAndThen (last : List ℕ) : List Host.Act :=
  [.enter (guestsList 500 steward) .push 600, .enter (guestsList 510 caller) .push 600] ++
    List.replicate 7 (.turn 0) ++ List.replicate 7 (.turn 1) ++ last.map .turn

theorem anchored_run_guest : (run Host.step clubHost (listsAndThen [0, 1])).shared.Anchored :=
  @anchored_run _ _ _ youngStore [club] founder 600 ∅ []
    (youngStore.events ++ [guestsList 500 steward, guestsList 510 caller]) (listsAndThen [0, 1]) (by decide +kernel)
    (fun _ => List.mem_append_left _) (by decide +kernel) (by decide +kernel)

/-- The anchors of the older list are written last, and stay. -/
theorem olderList_recorded :
    (∀ t ∈ (run Host.step clubHost (listsAndThen [1, 0])).tasks, t.isEnded = true) ∧
    (run Host.step clubHost (listsAndThen [1, 0])).shared.store.inboxOf guest = some (guestsList 510 caller) ∧
    (run Host.step clubHost (listsAndThen [1, 0])).shared.groups.keepsDmsFor steward guest = true ∧
    (run Host.step clubHost (listsAndThen [1, 0])).shared.groups.keepsDmsFor caller guest = false ∧
    ¬ (run Host.step clubHost (listsAndThen [1, 0])).shared.Anchored := by
  have facts : (∀ t ∈ (run Host.step clubHost (listsAndThen [1, 0])).tasks, t.isEnded = true) ∧
      (run Host.step clubHost (listsAndThen [1, 0])).shared.store.inboxOf guest = some (guestsList 510 caller) ∧
      (run Host.step clubHost (listsAndThen [1, 0])).shared.groups.keepsDmsFor steward guest = true ∧
      (run Host.step clubHost (listsAndThen [1, 0])).shared.groups.keepsDmsFor caller guest = false := by
    decide +kernel
  obtain ⟨ended, held, older, newer⟩ := facts
  refine ⟨ended, held, older, newer, fun anchored => ?_⟩
  have recorded := anchored guest
  rw [held] at recorded
  have named : ((anchorsOf (guestsList 510 caller)).any fun anchors => anchors.contains caller) = true := by decide +kernel
  have other : (guest == caller) = false := by decide
  have unread : (caller == guest) = false := by decide
  rw [Groups.keepsDmsFor, unread, Bool.false_or, recorded, Option.bind_some, named] at newer
  cases newer

end HitEnter.Node
