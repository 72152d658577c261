import HitEnter.Node.Offline
import HitEnter.Node.Silenced

/-! Whether the states in memory are what the store folds to once a look has gone over all
the groups, while calls go on and another process writes into the store. -/

namespace HitEnter.Node

open Wire HitEnter.Group Lib.Runs Lib.Turns

deriving instance DecidableEq for GroupState, Look, Phase, Call, Task

section Fold
variable [Nostr] {s t : Store} {g : PublicKey}

theorem isRead_iff {row : Event} :
    isRead g row = true ↔ groupOf row = some g ∧ foldKinds.contains row.kind = true := by
  simp only [isRead, foldKinds, Bool.and_eq_true, decide_eq_true_eq, Bool.or_eq_true, beq_iff_eq,
    List.contains_iff_mem, List.mem_append, List.mem_cons, or_assoc]

/-- A group folds to the same from stores that hold the same of what its fold reads. -/
theorem fold_groupEvents_congr (same : ∀ row, isRead g row = true → (row ∈ s.events ↔ row ∈ t.events)) :
    GroupState.fold g (s.groupEvents g) = GroupState.fold g (t.groupEvents g) := by
  have kept : (s.groupEvents g).filter (isRead g) = (t.groupEvents g).filter (isRead g) := by
    rw [Store.groupEvents, Store.groupEvents, List.filter_append, List.filter_append,
      Store.filter_query_congr rfl same, Store.filter_query_congr rfl same]
  rw [← fold_filter, kept, fold_filter]

theorem slotD_of_read {row : Event} (read : foldKinds.contains row.kind = true) :
    slotD row = if stateKinds.contains row.kind then some ((Nostr.identifier row.tags).getD "") else none := by
  have kinds : (foldKinds.all fun kind =>
      !(kind == 0 || kind == 3 || decide (10000 ≤ kind ∧ kind < 20000) || decide (20000 ≤ kind ∧ kind < 30000)) &&
        stateKinds.contains kind == decide (30000 ≤ kind ∧ kind < 40000)) = true := by
    decide +kernel
  have shape := List.all_eq_true.mp kinds row.kind (List.contains_iff_mem.mp read)
  simp only [Bool.and_eq_true, Bool.not_eq_true', Bool.or_eq_false_iff, beq_eq_false_iff_ne, decide_eq_false_iff_not,
    beq_iff_eq] at shape
  obtain ⟨⟨⟨⟨zero, three⟩, replaceable⟩, ephemeral⟩, addressable⟩ := shape
  have plain : ¬ (row.kind = 0 ∨ row.kind = 3 ∨ 10000 ≤ row.kind ∧ row.kind < 20000) := by tauto
  rw [slotD, slot, if_neg plain, if_neg ephemeral, addressable]
  by_cases range : 30000 ≤ row.kind ∧ row.kind < 40000
  · simp [range]
  · simp [range]

/-- What a fold reads is replaced by an event of its own group, if by one of any group. -/
theorem isRead_of_slot {a b : Event} (same : sameSlot a b = true) (some_ : (groupOf a).isSome = true)
    (read : isRead g b = true) : isRead g a = true := by
  obtain ⟨own, kind⟩ := isRead_iff.mp read
  simp only [sameSlot, Bool.and_eq_true, beq_iff_eq] at same
  obtain ⟨⟨⟨slotted, kinds⟩, _⟩, slots⟩ := same
  rw [slotD_of_read (kinds ▸ kind)] at slotted slots
  rw [slotD_of_read kind, ← kinds] at slots
  refine isRead_iff.mpr ⟨?_, kinds ▸ kind⟩
  cases state : stateKinds.contains a.kind with
  | false => simp only [state, Bool.false_eq_true, ↓reduceIte, Option.isSome_none] at slotted
  | true =>
    simp only [state, ↓reduceIte, Option.some.injEq] at slots
    simp only [groupOf, state, ← kinds, ↓reduceIte] at own some_ ⊢
    cases first : Nostr.identifier a.tags with
    | none =>
      rw [first] at some_
      cases some_
    | some d =>
      cases second : Nostr.identifier b.tags with
      | none =>
        rw [second] at own
        cases own
      | some d' =>
        rw [first, second] at slots
        rw [second] at own
        cases slots
        exact own

/-- What a fold reads changes a group, and is nothing that goes another way from the store. -/
theorem read_kind {row : Event} (read : isRead g row = true) :
    changesState row.kind = true ∧ deletableKinds.contains row.kind = false ∧
      (row.kind ≠ deviceBinding ∧ row.kind ≠ giftWrap) ∧
      row.kind ≠ deletion ∧ row.kind ≠ deleteEvent ∧ row.kind ≠ inboxList := by
  have kinds : (foldKinds.all fun kind => changesState kind && !deletableKinds.contains kind && kind != deviceBinding &&
      kind != giftWrap && kind != deletion && kind != deleteEvent && kind != inboxList) = true := by
    decide +kernel
  have apart := List.all_eq_true.mp kinds row.kind (List.contains_iff_mem.mp (isRead_iff.mp read).2)
  simp only [Bool.and_eq_true, bne_iff_ne, Bool.not_eq_true'] at apart
  obtain ⟨⟨⟨⟨⟨⟨changes, firm⟩, binding⟩, wrap⟩, deletes⟩, removes⟩, lists⟩ := apart
  exact ⟨changes, firm, ⟨binding, wrap⟩, deletes, removes, lists⟩

end Fold

/-- The group whose stored events a call is about to fold. -/
def Task.refolds : Task → Option PublicKey
  | .call c =>
    match c.phase with
    | .refolding group => some group
    | _ => none
  | .look _ => none

section Steps
variable [NostrEvents] {node : Inner} {t : Task} {g : PublicKey} {ev : Event}

/-- Storing an event leaves the fold of a group that does not read it. -/
theorem insert_read (grouped : isGroupKind ev.kind = true → (groupOf ev).isSome = true)
    (apart : isRead g ev = true → (node.store.insert ev).2 ≠ .new) {row : Event} (read : isRead g row = true) :
    row ∈ (node.store.insert ev).1.events ↔ row ∈ node.store.events := by
  rw [Store.mem_insert]
  split
  · rename_i new
    constructor
    · rintro (rfl | ⟨held, _⟩)
      · exact absurd new (apart read)
      · exact held
    · refine fun held => .inr ⟨held, Bool.eq_false_iff.mpr fun same => ?_⟩
      have kinds : ev.kind = row.kind := by
        simp only [sameSlot, Bool.and_eq_true, beq_iff_eq] at same
        exact same.1.1.2
      have group := isGroupKind_of_groupOf (isRead_iff.mp read).1
      exact apart (isRead_of_slot same (grouped (kinds ▸ group)) read) new
  · rfl

private theorem Task.holds_of_refolds (sound : ∀ c, t = .call c → c.Sound) (refolds : t.refolds = some g) :
    t.holds = some .write := by
  rcases t with ⟨ev, source, now, phase⟩ | l
  · cases phase
    case refolding g' =>
      obtain ⟨own, changes⟩ := sound _ rfl
      simp only [Task.holds, Phase.isBusy, ↓reduceIte]
      exact Call.needs_of_changes own changes
    all_goals cases refolds
  · cases refolds

omit [NostrEvents] in
private theorem Task.sets_of_refolds (refolds : t.refolds = some g) : t.sets = none := by
  rcases t with ⟨ev, source, now, phase⟩ | l
  · cases phase
    all_goals first | rfl | cases refolds
  · cases refolds

variable [Devices] [Wraps]

private theorem Task.next_of_refolds (refolds : t.refolds = some g) :
    (t.next node).2.sets = some (g, node.foldOf g) := by
  rcases t with ⟨ev, source, now, phase⟩ | l
  · cases phase
    case refolding g' =>
      cases refolds
      rfl
    all_goals cases refolds
  · cases refolds

/-- What a task is to write next, it has folded now. -/
private theorem Task.sets_next {state : Option GroupState} (sets : (t.next node).2.sets = some (g, state)) :
    t.refolds = some g ∧ state = node.foldOf g ∨
      ∃ events left, t = .look (.comparing g events left) ∧ state = GroupState.fold g events := by
  rcases t with c | l
  · by_cases early : c.phase.isEarly = true
    · exfalso
      simp only [Task.next, Task.sets] at sets
      split at sets
      · rename_i settling
        rcases Call.next_early node early with ⟨verdict, ended, _⟩ | early' | ⟨_, storing, _⟩
        · rw [ended] at settling
          cases settling
        · rw [settling] at early'
          cases early'
        · rw [storing] at settling
          cases settling
      · cases sets
    · rcases c with ⟨ev, source, now, phase⟩
      cases phase
      case refolding g' =>
        cases sets
        exact .inl ⟨rfl, rfl⟩
      case storing =>
        rcases Phase.stored_cases ev (node.insert ev now).2 with phase | ⟨_, ⟨_, phase⟩ | ⟨_, phase⟩ | ⟨_, phase⟩ |
          ⟨_, phase⟩ | ⟨_, _, _, phase⟩⟩
        all_goals
          simp only [Task.next, Call.next, Task.sets, phase] at sets
          cases sets
      all_goals first | exact absurd rfl early | cases sets
  · cases l
    case comparing g' events left =>
      simp only [Task.next, Look.next] at sets
      split at sets
      · cases sets
      · split at sets
        · cases sets
        · cases sets
          exact .inr ⟨events, left, rfl, rfl⟩
    case waiting left =>
      cases left
      all_goals cases sets
    all_goals cases sets

/-- A step leaves the fold of a group, or stores an event of it and goes on to fold it. -/
private theorem Task.foldOf_next (spared : ∀ row ∈ node.store.events, isRead g row = true → row.id ∉ t.drops)
    (grouped : ∀ ev, t.stores = some ev → isGroupKind ev.kind = true → (groupOf ev).isSome = true) :
    (t.next node).1.foldOf g = node.foldOf g ∨
      ∃ ev, t.stores = some ev ∧ isRead g ev = true ∧ (t.next node).2.refolds = some g := by
  cases stores : t.stores with
  | none =>
    left
    refine fold_groupEvents_congr fun row read => ?_
    obtain ⟨_, firm, aside, _⟩ := read_kind read
    rcases Task.rows_next t node aside with ⟨ev, stores', _⟩ | ⟨_, before, after⟩
    · rw [stores] at stores'
      cases stores'
    · exact ⟨before, fun held => after firm held (spared row held read)⟩
  | some ev =>
    by_cases new : isRead g ev = true ∧ (node.store.insert ev).2 = .new
    · obtain ⟨read, new⟩ := new
      refine .inr ⟨ev, rfl, read, ?_⟩
      obtain ⟨changes, _, ⟨_, notWrap⟩, notDeletion, notRemoval, notList⟩ := read_kind read
      have own := (isRead_iff.mp read).1
      have stored : Phase.stored ev .new = .refolding g := by
        simp [Phase.stored, notDeletion, notRemoval, notWrap, notList, own, changes]
      rcases t with ⟨ev', source, now, phase⟩ | l
      · cases phase
        case storing =>
          cases stores
          have how : (node.insert ev' now).2 = .new := new
          simp only [Task.next, Call.next, how, stored, Task.refolds]
        all_goals cases stores
      · cases stores
    · left
      refine fold_groupEvents_congr fun row read => ?_
      rcases Task.rows_next t node (read_kind read).2.2.1 with ⟨ev', stores', rows⟩ | ⟨idle, _⟩
      · rw [stores] at stores'
        cases stores'
        exact rows.trans (insert_read (grouped ev stores) (fun own fresh => new ⟨own, fresh⟩) read)
      · rw [stores] at idle
        cases idle

end Steps

/-- The groups that a look has yet to read. -/
def Look.unread : Look → List PublicKey
  | .waiting left => left
  | .reading group left => group :: left
  | .comparing _ _ left => left
  | .settling _ _ left => left
  | .purging _ left => left
  | .removing _ left => left

/-- The group that a look has read and has not done with. -/
def Look.current : Look → Option PublicKey
  | .comparing group _ _ => some group
  | .settling group _ _ => some group
  | _ => none

/-- Is a look under way that has read `group`? -/
def Task.hasRead (group : PublicKey) : Task → Bool
  | .call _ => false
  | .look l => !l.isEnded && (l.current == some group || !l.unread.contains group)

section Run
variable [NostrEvents] [Devices] [Wraps] {h : Host} {i : ℕ} {t : Task} {known : List Event} {g : PublicKey}

/-- Does what is in memory of `group` agree with what is stored? -/
def Inner.isCurrent (node : Inner) (group : PublicKey) : Bool := node.groups.state group == node.foldOf group

/-- Each event is one of `known`; another process writes nothing that changes the fold of a
group that a look under way has read; and a group that is not as its stored events fold
when a look compares it was counted by an earlier look, with another count. -/
def Host.refolds (known : List Event) (h : Host) : Host.Act → Bool
  | .enter ev _ _ => known.contains ev
  | .write ev now => known.contains ev && h.shared.groups.carried.keys.all fun g =>
      !h.tasks.any (Task.hasRead g) || (h.shared.insert ev now).1.foldOf g == h.shared.foldOf g
  | .turn i =>
    match h.tasks[i]? with
    | some (.look (.comparing g events _)) =>
      h.shared.isCurrent g || (h.shared.folded[g]?).any (· != events.length)
    | _ => true
  | _ => true

/-- What is in memory of `g` is what is stored of it, or a call is about to see to that;
and nobody is about to write anything else. -/
private structure Agrees (h : Host) (g : PublicKey) : Prop where
  due : h.shared.groups.state g = h.shared.foldOf g ∨
    ∃ t ∈ h.tasks, t.refolds = some g ∨ ∃ state, t.sets = some (g, state)
  only : ∀ t ∈ h.tasks, ∀ state, t.sets = some (g, state) → state = h.shared.foldOf g

/-- What a look has read is still so. -/
private structure Sighted (h : Host) (l : Look) : Prop where
  passed : ∀ g, h.shared.groups.carried.contains g = true → g ∉ l.unread → l.current ≠ some g → Agrees h g
  comparing : ∀ g events left, h.shared.groups.carried.contains g = true → l = .comparing g events left →
    GroupState.fold g events = h.shared.foldOf g
  settling : ∀ g state left, h.shared.groups.carried.contains g = true → l = .settling g state left →
    state = h.shared.foldOf g

omit [Devices] [Wraps] in
/-- A look that is at no group has agreed on those it has no longer to read. -/
private theorem Sighted.between {l : Look} (idle : l.current = none)
    (passed : ∀ g, h.shared.groups.carried.contains g = true → g ∉ l.unread → Agrees h g) : Sighted h l where
  passed g carried unread _ := passed g carried unread
  comparing g events left _ same := by
    subst same
    cases idle
  settling g state left _ same := by
    subst same
    cases idle

private structure Watched (known : List Event) (h : Host) : Prop where
  sane : h.Sane
  named : h.Named known
  quiet : h.starting ≠ .up → h.tasks = []
  grouped : ∀ c, .call c ∈ h.tasks → c.phase.isPending = true → isGroupKind c.event.kind = true →
    (groupOf c.event).isSome = true
  looks : ∀ l, .look l ∈ h.tasks → l.isEnded = false → Sighted h l

open Host

private theorem Watched.spared (inv : Watched known h) (distinct : (known.map Event.id).Nodup) (listed : t ∈ h.tasks)
    (g : PublicKey) : ∀ row ∈ h.shared.store.events, isRead g row = true → row.id ∉ t.drops := by
  intro row held read
  obtain ⟨_, firm, aside, _⟩ := read_kind read
  exact inv.named.spared distinct listed held aside firm

private theorem Watched.stored (inv : Watched known h) (listed : t ∈ h.tasks) {ev : Event} (stores : t.stores = some ev)
    (group : isGroupKind ev.kind = true) : (groupOf ev).isSome = true := by
  rcases t with ⟨ev', source, now, phase⟩ | l
  · cases phase
    case storing =>
      cases stores
      exact inv.grouped _ listed rfl group
    all_goals cases stores
  · cases stores

/-- Nobody else sets or folds a group while a task holds the lock for writing. -/
private theorem lone (sane : h.Sane) (turned : Turned h i t) (writes : t.holds = some .write) {u : Task} {j : ℕ}
    (apart : j ≠ i) (there : h.tasks[j]? = some u) : (∀ state, u.sets ≠ some (g, state)) ∧ u.refolds ≠ some g := by
  have free := turned.alone sane writes apart there
  have sound : ∀ c, u = .call c → c.Sound := fun c same => sane.sound c (same ▸ List.mem_of_getElem? there)
  constructor
  · intro state sets
    rw [Task.holds_of_sets sound sets] at free
    cases free
  · intro refolds
    rw [Task.holds_of_refolds sound refolds] at free
    cases free

private theorem carried_turn (turned : Turned h i t) :
    (h.step (.turn i)).shared.groups.carried.contains g = h.shared.groups.carried.contains g := by
  rw [turned.shared]
  cases sets : t.sets with
  | none => rw [Task.carried_next sets]
  | some pair =>
    rw [(Task.next_of_sets sets).1]
    simp only [Inner.setState, Groups.setState]
    split
    · rename_i here
      rw [Std.ExtTreeMap.contains_insert]
      by_cases same : pair.1 = g
      · subst same
        simp [here]
      · simp [same]
    · rfl

/-- What a group folds to changes by an event that is stored, whose call holds the lock and
goes on to fold it. -/
private theorem Watched.folds (inv : Watched known h) (distinct : (known.map Event.id).Nodup) (turned : Turned h i t) :
    (h.step (.turn i)).shared.foldOf g = h.shared.foldOf g ∨
      t.holds = some .write ∧ (t.next h.shared).2.refolds = some g := by
  have member := List.mem_of_getElem? turned.here
  rw [turned.shared]
  refine (Task.foldOf_next (inv.spared distinct member g) fun ev stores => inv.stored member stores).imp_right ?_
  rintro ⟨ev, stores, read, refolds⟩
  refine ⟨?_, refolds⟩
  rcases t with ⟨ev', source, now, phase⟩ | l
  · cases phase
    case storing =>
      cases stores
      simp only [Task.holds, Phase.isBusy, ↓reduceIte]
      exact Call.needs_of_changes (isRead_iff.mp read).1 (read_kind read).1
    all_goals cases stores
  · cases stores

/-- What a task is to write of a carried group is what is stored of it. -/
private theorem Watched.sets (inv : Watched known h) (listed : t ∈ h.tasks)
    (carried : h.shared.groups.carried.contains g = true) {state : Option GroupState}
    (sets : (t.next h.shared).2.sets = some (g, state)) : state = h.shared.foldOf g := by
  rcases Task.sets_next sets with ⟨_, folded⟩ | ⟨events, left, rfl, folded⟩
  · exact folded
  · rw [folded]
    exact (inv.looks _ listed rfl).comparing g events left carried rfl

/-- A turn leaves a group in agreement. -/
private theorem Agrees.turn (agrees : Agrees h g) (inv : Watched known h) (distinct : (known.map Event.id).Nodup)
    (turned : Turned h i t) (carried : h.shared.groups.carried.contains g = true) : Agrees (h.step (.turn i)) g := by
  have member := List.mem_of_getElem? turned.here
  rcases inv.folds (g := g) distinct turned with same | ⟨writes, refolds⟩
  · have only : ∀ u ∈ (h.step (.turn i)).tasks, ∀ state, u.sets = some (g, state) →
        state = (h.step (.turn i)).shared.foldOf g := by
      intro u listed state sets
      rw [same]
      rcases turned.mem listed with rfl | ⟨j, _, there⟩
      · exact inv.sets member carried sets
      · exact agrees.only u (List.mem_of_getElem? there) state sets
    refine ⟨?_, only⟩
    by_cases own : ∃ state, t.sets = some (g, state)
    · obtain ⟨state, sets⟩ := own
      left
      rw [same, turned.shared, (Task.next_of_sets sets).1, Inner.setState, Groups.state_setState,
        if_pos ⟨rfl, carried⟩]
      exact agrees.only t member state sets
    · have other : (h.step (.turn i)).shared.groups.state g = h.shared.groups.state g := by
        rw [turned.shared]
        cases sets : t.sets with
        | none => rw [Groups.state, Task.carried_next sets, Groups.state]
        | some pair =>
          rw [(Task.next_of_sets sets).1, Inner.setState, Groups.state_setState, if_neg]
          rintro ⟨rfl, _⟩
          exact own ⟨pair.2, sets⟩
      rw [same, other]
      refine agrees.due.imp_right ?_
      rintro ⟨u, listed, due⟩
      rcases turned.stays listed with rfl | after
      · rcases due with refolds | sets
        · exact ⟨_, turned.after, .inr ⟨_, Task.next_of_refolds refolds⟩⟩
        · exact absurd sets own
      · exact ⟨u, after, due⟩
  · -- The lock is held, and the fold is next.
    refine ⟨.inr ⟨_, turned.after, .inl refolds⟩, fun u listed state sets => ?_⟩
    rcases turned.mem listed with rfl | ⟨j, apart, there⟩
    · rw [Task.sets_of_refolds refolds] at sets
      cases sets
    · exact absurd sets ((lone inv.sane turned writes apart there).1 state)

/-- What a look has read is so after its turn, and agrees where it has done with it. -/
private theorem Watched.sighted (inv : Watched known h) (distinct : (known.map Event.id).Nodup) {l : Look}
    (turned : Turned h i (.look l)) (busy : l.isEnded = false) (meets : h.refolds known (.turn i) = true) :
    Sighted (h.step (.turn i)) (l.next h.shared).2 := by
  have member := List.mem_of_getElem? turned.here
  have sighted := inv.looks l member busy
  have folds : ∀ g, (h.step (.turn i)).shared.foldOf g = h.shared.foldOf g := by
    intro g
    rcases inv.folds (g := g) distinct turned with same | ⟨_, refolds⟩
    · exact same
    · cases refolds
  have keeps : ∀ g, h.shared.groups.carried.contains g = true → Agrees h g → Agrees (h.step (.turn i)) g :=
    fun g carried agrees => agrees.turn inv distinct turned carried
  -- While it holds the lock, nobody else is to write anything of the group.
  have mine : ∀ g, l.isBusy = true → (∀ state, (Task.look l).sets = some (g, state) → state = h.shared.foldOf g) →
      ∀ u ∈ h.tasks, ∀ state, u.sets = some (g, state) → state = h.shared.foldOf g := by
    intro g holds own u listed state sets
    obtain ⟨j, there⟩ := List.mem_iff_getElem?.mp listed
    by_cases apart : j = i
    · subst apart
      obtain rfl := Option.some.inj (there.symm.trans turned.here)
      exact own state sets
    · have writes : (Task.look l).holds = some .write := if_pos holds
      exact absurd sets ((lone inv.sane turned writes apart there).1 state)
  have carried : ∀ {g}, (h.step (.turn i)).shared.groups.carried.contains g = true →
      h.shared.groups.carried.contains g = true := fun here => (carried_turn turned) ▸ here
  cases l with
  | waiting left =>
    cases left with
    | nil => cases busy
    | cons g left =>
      refine ⟨fun g' here unread _ => ?_, fun _ _ _ _ same => ?_, fun _ _ _ _ same => ?_⟩
      · exact keeps g' (carried here) (sighted.passed g' (carried here) unread fun same => by cases same)
      · cases same
      · cases same
  | reading g left =>
    refine ⟨fun g' here unread other => ?_, fun g' events left' _ same => ?_,
      fun _ _ _ _ same => by cases same⟩
    · refine keeps g' (carried here) (sighted.passed g' (carried here) (fun listed => ?_) fun same => by cases same)
      rcases List.mem_cons.mp listed with rfl | later
      · exact other rfl
      · exact unread later
    · cases same
      rw [folds]
      rfl
  | comparing g events left =>
    have rest : ∀ g', (h.step (.turn i)).shared.groups.carried.contains g' = true → g' ∉ left → g' ≠ g →
        Agrees (h.step (.turn i)) g' := fun g' here unread other =>
      keeps g' (carried here) (sighted.passed g' (carried here) unread fun same => other (Option.some.inj same).symm)
    have skips : h.shared.isCurrent g = true → Sighted (h.step (.turn i)) (.waiting left) := by
      intro current
      refine Sighted.between rfl fun g' here unread => ?_
      by_cases own : g' = g
      · subst own
        refine keeps g' (carried here) ⟨.inl ?_, mine g' rfl fun _ sets => by cases sets⟩
        simpa [Inner.isCurrent] using current
      · exact rest g' here unread own
    have compared : (h.shared.isCurrent g || (h.shared.folded[g]?).any (· != events.length)) = true := by
      simpa [Host.refolds, turned.here] using meets
    simp only [Look.next]
    split
    · rename_i seen
      rw [seen] at compared
      exact skips (by simpa using compared)
    · split
      · rename_i first
        rw [Option.isNone_iff_eq_none.mp first] at compared
        exact skips (by simpa using compared)
      · refine ⟨fun g' here unread other => ?_, fun _ _ _ _ same => (by cases same), fun g' state left' here same => ?_⟩
        · exact rest g' here unread fun same => other (congrArg some same.symm)
        · cases same
          rw [folds]
          exact sighted.comparing g events left (carried here) rfl
  | settling g state left =>
    refine Sighted.between rfl fun g' here unread => ?_
    by_cases own : g' = g
    · subst own
      refine keeps g' (carried here) ⟨.inr ⟨_, member, .inr ⟨state, rfl⟩⟩, mine g' rfl fun state' sets => ?_⟩
      cases sets
      exact sighted.settling g' state left (carried here) rfl
    · exact keeps g' (carried here)
        (sighted.passed g' (carried here) unread fun same => own (Option.some.inj same).symm)
  | purging g left =>
    refine Sighted.between rfl fun g' here unread => ?_
    exact keeps g' (carried here) (sighted.passed g' (carried here) unread fun same => by cases same)
  | removing gone left =>
    refine Sighted.between rfl fun g' here unread => ?_
    exact keeps g' (carried here) (sighted.passed g' (carried here) unread fun same => by cases same)

omit [Devices] [Wraps] in
private theorem Agrees.of_same (agrees : Agrees h g) {h' : Host} (state : h'.shared.groups.state g = h.shared.groups.state g)
    (fold : h'.shared.foldOf g = h.shared.foldOf g) (stays : ∀ t ∈ h.tasks, t ∈ h'.tasks)
    (only : ∀ t ∈ h'.tasks, t.sets ≠ none → t ∈ h.tasks) : Agrees h' g := by
  refine ⟨?_, fun t listed state' sets => ?_⟩
  · rw [state, fold]
    refine agrees.due.imp_right ?_
    rintro ⟨t, listed, due⟩
    exact ⟨t, stays t listed, due⟩
  · rw [fold]
    exact agrees.only t (only t listed (by simp [sets])) state' sets

private theorem Watched.turn (inv : Watched known h) (distinct : (known.map Event.id).Nodup)
    (turned : Turned h i t) (meets : h.refolds known (.turn i) = true) {l : Look} (busy : l.isEnded = false)
    (listed : .look l ∈ (h.step (.turn i)).tasks) : Sighted (h.step (.turn i)) l := by
  rcases turned.mem listed with after | ⟨j, apart, there⟩
  · cases t with
    | call c => cases after
    | look l' =>
      simp only [Task.next, Task.look.injEq] at after
      subst after
      refine inv.sighted distinct turned ?_ meets
      by_contra over_
      rw [Bool.not_eq_false] at over_
      cases l' with
      | waiting left =>
        cases left with
        | nil => cases busy
        | cons g left => cases over_
      | reading | comparing | settling | purging | removing => cases over_
  · have member := List.mem_of_getElem? there
    have sighted := inv.looks l member busy
    -- While it is about a group, nobody stores what changes one.
    have folds : ∀ g, l.isBusy = true → (h.step (.turn i)).shared.foldOf g = h.shared.foldOf g := by
      intro g holds
      rcases inv.folds (g := g) distinct turned with same | ⟨writes, _⟩
      · exact same
      · have free := turned.alone inv.sane writes apart there
        rw [show (Task.look l).holds = some .write from if_pos holds] at free
        cases free
    refine ⟨fun g carried unread other => ?_, fun g events left carried same => ?_, fun g state left carried same => ?_⟩
    · rw [carried_turn turned] at carried
      exact (sighted.passed g carried unread other).turn inv distinct turned carried
    · rw [carried_turn turned] at carried
      rw [folds g (by rw [same]; rfl)]
      exact sighted.comparing g events left carried same
    · rw [carried_turn turned] at carried
      rw [folds g (by rw [same]; rfl)]
      exact sighted.settling g state left carried same

private theorem Watched.take (inv : Watched known h) {task : Task} (idle : task.sets = none)
    (calls : ∀ c, task = .call c → c.phase = .waiting)
    (looks : ∀ l, task = .look l → l = .waiting h.shared.groups.carried.keys) (sane : (h.take task).Sane)
    (named : (h.take task).Named known) : Watched known (h.take task) := by
  cases up : h.starting with
  | folding left =>
    have same : h.take task = h := by simp only [Host.take, up]
    rw [same]
    exact inv
  | up =>
    have tasks : (h.take task).tasks = h.tasks ++ [task] ∧ (h.take task).shared = h.shared ∧ (h.take task).starting = .up := by
      simp only [Host.take, up, and_self]
    obtain ⟨tasks, shared, started⟩ := tasks
    have added : ∀ {u : Task}, u ∈ (h.take task).tasks → u ∈ h.tasks ∨ u = task := by
      intro u listed
      rw [tasks] at listed
      simpa using listed
    have agrees : ∀ {g}, Agrees h g → Agrees (h.take task) g := fun agreed =>
      agreed.of_same (by rw [shared]) (by rw [shared])
        (fun u listed => by rw [tasks]; exact List.mem_append_left _ listed)
        fun u listed sets => (added listed).elim id fun same => absurd (same ▸ idle) sets
    refine ⟨sane, named, fun down => absurd started down, fun c listed pending group => ?_, fun l listed busy => ?_⟩
    · rcases added listed with old | new
      · exact inv.grouped c old pending group
      · rw [calls c new.symm] at pending
        cases pending
    · rcases added listed with old | new
      · have sighted := inv.looks l old busy
        refine ⟨fun g carried unread other => agrees (sighted.passed g (shared ▸ carried) unread other), ?_, ?_⟩
        · rw [shared]
          exact sighted.comparing
        · rw [shared]
          exact sighted.settling
      · obtain rfl := looks l new.symm
        refine Sighted.between rfl fun g carried unread => absurd ?_ unread
        rw [shared] at carried
        simpa [Look.unread] using carried

/-- What another process writes leaves what the looks under way have read. -/
private theorem Watched.write (inv : Watched known h) {ev : Event} {now : Timestamp}
    (meets : h.refolds known (.write ev now) = true) (named : (h.step (.write ev now)).Named known) :
    Watched known (h.step (.write ev now)) := by
  have folds : ∀ g, h.shared.groups.carried.contains g = true → (∃ t ∈ h.tasks, t.hasRead g = true) →
      (h.step (.write ev now)).shared.foldOf g = h.shared.foldOf g := by
    rintro g carried ⟨t, listed, read⟩
    simp only [Host.refolds, Bool.and_eq_true, List.all_eq_true] at meets
    have same := meets.2 g (by simpa using carried)
    rw [List.any_eq_true.mpr ⟨t, listed, read⟩] at same
    change (h.shared.insert ev now).1.foldOf g = _
    simpa using same
  refine ⟨inv.sane.step _, named, inv.quiet, inv.grouped, fun l listed busy => ?_⟩
  have sighted := inv.looks l listed busy
  refine ⟨fun g carried unread other => ?_, fun g events left carried same => ?_, fun g state left carried same => ?_⟩
  · refine (sighted.passed g carried unread other).of_same rfl (folds g carried ⟨_, listed, ?_⟩) (fun _ => id)
      fun _ here _ => here
    simp [Task.hasRead, busy, unread]
  · subst same
    rw [folds g carried ⟨_, listed, by simp [Task.hasRead, busy, Look.current]⟩]
    exact sighted.comparing g events left carried rfl
  · subst same
    rw [folds g carried ⟨_, listed, by simp [Task.hasRead, busy, Look.current]⟩]
    exact sighted.settling g state left carried rfl

private theorem Watched.step (inv : Watched known h) (distinct : (known.map Event.id).Nodup) (act : Host.Act)
    (meets : h.refolds known act = true) : Watched known (h.step act) := by
  have brings : ∀ ev, act.brings = some ev → ev ∈ known := by
    intro ev brought
    cases act with
    | enter ev' source now =>
      cases brought
      exact List.contains_iff_mem.mp meets
    | write ev' now =>
      cases brought
      exact List.contains_iff_mem.mp (Bool.and_eq_true_iff.mp meets).1
    | load => cases brought
    | look => cases brought
    | turn i => cases brought
  have sane := inv.sane.step act
  have named := inv.named.step brings
  cases act with
  | enter ev source now =>
    exact inv.take rfl (fun c same => by cases same; rfl) (fun l same => by cases same) sane named
  | look => exact inv.take rfl (fun c same => by cases same) (fun l same => by cases same; rfl) sane named
  | write ev now => exact inv.write meets named
  | load =>
    cases up : h.starting with
    | up =>
      have still : h.step .load = h := by simp only [Host.step, Host.load, up]
      rw [still]
      exact inv
    | folding left =>
      have idle := inv.quiet (by simp [up])
      have same : (h.step .load).tasks = [] := by
        simp only [Host.step, Host.load, up]
        cases left <;> exact idle
      refine ⟨sane, named, fun _ => same, fun c listed => ?_, fun l listed => ?_⟩
      all_goals
        rw [same] at listed
        cases listed
  | turn i =>
    rcases turn_cases h i with same | ⟨t, turned⟩
    · rw [same]
      exact inv
    · refine ⟨sane, named, fun down => ?_, fun c listed pending group => ?_, fun l listed busy =>
        inv.turn distinct turned meets busy listed⟩
      · have idle := inv.quiet (turned.starting ▸ down)
        have here := turned.here
        rw [idle] at here
        cases here
      · rcases turned.mem listed with after | ⟨j, _, there⟩
        · cases t with
          | call c' =>
            simp only [Task.next, Task.call.injEq] at after
            subst after
            have member := List.mem_of_getElem? turned.here
            rcases Call.pending_next pending with before | ⟨_, judgement, judged⟩
            · exact inv.grouped c' member before group
            · rw [Inner.judged_of_not_wrap (groupKind_not_personal group).1] at judged
              obtain ⟨g, _, own, _⟩ := judge_carried judged group
              exact Option.isSome_iff_exists.mpr ⟨g, own⟩
          | look l => cases after
        · exact inv.grouped c (List.mem_of_getElem? there) pending group

/-- A look that ends holds the lock to its end: nobody is about to fold or set a group. -/
private theorem Watched.ended (inv : Watched known h) (distinct : (known.map Event.id).Nodup) {l : Look}
    (under : h.tasks[i]? = some (.look l)) (busy : l.isEnded = false) (meets : h.refolds known (.turn i) = true)
    (over_ : (h.step (.turn i)).tasks[i]? = some (.look (.waiting [])))
    (carried : (h.step (.turn i)).shared.groups.carried.contains g = true) :
    (h.step (.turn i)).shared.groups.state g = (h.step (.turn i)).shared.foldOf g := by
  rcases turn_cases h i with same | ⟨t, turned⟩
  · rw [same, under] at over_
    cases over_
    cases busy
  · obtain rfl := Option.some.inj (turned.here.symm.trans under)
    have next : (l.next h.shared).2 = .waiting [] := by
      have after := over_
      rw [turned.tasks, List.getElem?_set_self (List.getElem?_eq_some_iff.mp under).1] at after
      simpa [Task.next] using after
    have writes : (Task.look l).holds = some .write := by
      cases l with
      | waiting left =>
        cases left with
        | nil => cases busy
        | cons g left => cases next
      | reading | comparing | settling | purging | removing => rfl
    have sighted := inv.sighted distinct turned busy meets
    rw [next] at sighted
    rcases (sighted.passed g carried List.not_mem_nil fun same => by cases same).due with agreed | ⟨u, listed, due⟩
    · exact agreed
    · rcases turned.mem listed with rfl | ⟨j, apart, there⟩
      · simp only [Task.next, next] at due
        rcases due with refolds | ⟨_, sets⟩
        · cases refolds
        · cases sets
      · obtain ⟨noSets, noRefolds⟩ := lone (g := g) inv.sane turned writes apart there
        rcases due with refolds | ⟨state, sets⟩
        · exact absurd refolds noRefolds
        · exact absurd sets (noSets state)

end Run

/-- The founder removes the guest. -/
def guestKicked : Event := (Draft.removeUser club guest).sign founder 450

/-- The node starts on the club, and another process writes what the founder signed after
`looks` looks; then comes one more look. -/
def kickedAfter (looks : ℕ) : List Host.Act :=
  [.load, .load] ++ (List.range looks).flatMap (fun i => .look :: List.replicate 3 (.turn i)) ++
    [.write guestKicked 600, .look]

end HitEnter.Node
