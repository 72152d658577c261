import HitEnter.Node.Own
import HitEnter.Node.TagIndex

/-! Whether a person's own actions of a kind in a group keep the order in which they were made,
over any run of a node and the calls that sign and publish on it. -/

namespace HitEnter.Node

open Wire HitEnter.Group Lib.Runs

/-- An action of an ordered kind is kept once stored: nothing replaces or withdraws it. -/
theorem ordered_kinds {kind : Kind} (known : ordered.contains kind = true) :
    foldKinds.contains kind = true ∧ stateKinds.contains kind = false ∧ isGroupKind kind = true ∧
      deletableKinds.contains kind = false ∧ kind ≠ deviceBinding ∧ kind ≠ giftWrap := by
  have kinds : (ordered.all fun kind => foldKinds.contains kind && !stateKinds.contains kind && isGroupKind kind &&
      !deletableKinds.contains kind && kind != deviceBinding && kind != giftWrap) = true := by
    decide
  have facts := List.all_eq_true.mp kinds kind (List.contains_iff_mem.mp known)
  simpa [and_assoc] using facts

section Rows
variable [Nostr] {row ev : Event}

theorem slot_ordered (known : ordered.contains row.kind = true) : slot row = .regular := by
  have kinds : (ordered.all fun kind => kind != 0 && kind != 3 && decide (kind < 10000)) = true := by decide
  have facts := List.all_eq_true.mp kinds row.kind (List.contains_iff_mem.mp known)
  simp only [Bool.and_eq_true, bne_iff_ne, decide_eq_true_eq] at facts
  obtain ⟨⟨zero, three⟩, small⟩ := facts
  have under : ∀ bound : UInt16, 10000 ≤ bound → ¬ bound ≤ row.kind := fun bound above most =>
    absurd (UInt16.lt_of_lt_of_le small (UInt16.le_trans above most)) (UInt16.lt_irrefl _)
  simp [slot, zero, three, under 10000 (by decide), under 20000 (by decide), under 30000 (by decide)]

theorem sameSlot_ordered (known : ordered.contains row.kind = true) : sameSlot ev row = false := by
  rw [sameSlot_comm]
  simp [sameSlot, slotD, slot_ordered known]

theorem groupOf_deed {deed : Deed} {person : PublicKey} {date : Timestamp} (known : ordered.contains deed.kind = true) :
    groupOf (deed.draft.sign person date) = some deed.group := by
  obtain ⟨_, state, own, _⟩ := ordered_kinds known
  have kind : (deed.draft.sign person date).kind = deed.kind := rfl
  rw [groupOf, kind, state, own]
  simp [firstValue, Draft.sign, signed, Deed.draft, Draft.h]

variable {s : Store} {deed : Deed} {person : PublicKey} {date : Timestamp}

/-- What a person did in a group is among what the fold reads. -/
theorem mem_groupEvents_deed (known : ordered.contains deed.kind = true) (held : deed.draft.sign person date ∈ s.events) :
    deed.draft.sign person date ∈ s.groupEvents deed.group := by
  obtain ⟨folds, _⟩ := ordered_kinds known
  refine List.mem_append.mpr (.inl ((mem_query_inGroup rfl rfl).mpr ⟨held, ?_, ?_⟩))
  · have kind : (deed.draft.sign person date).kind = deed.kind := rfl
    simp only [Filter.selects, kind, folds, Option.all_none, Option.all_some, List.all_nil, Bool.and_self]
  · simp [groupTexts, Draft.sign, signed, Deed.draft, Draft.h]

/-- The last action held is not before any that is. -/
theorem lastOf_deed (known : ordered.contains deed.kind = true) (held : deed.draft.sign person date ∈ s.events) :
    ∃ n, s.lastOf person deed.kind deed.group = some n ∧ date ≤ n := by
  have listed : date ∈ ((s.groupEvents deed.group).filter fun ev => ev.pubkey == person && ev.kind == deed.kind).map
      Event.createdAt := by
    refine List.mem_map.mpr ⟨_, List.mem_filter.mpr ⟨mem_groupEvents_deed known held, ?_⟩, rfl⟩
    simp [Draft.sign, signed, Deed.draft]
  unfold Store.lastOf
  cases top : (((s.groupEvents deed.group).filter fun ev => ev.pubkey == person && ev.kind == deed.kind).map
      Event.createdAt).max? with
  | none => simp [List.max?_eq_none_iff.mp top] at listed
  | some n => exact ⟨n, rfl, (List.max?_eq_some_iff.mp top).2 date listed⟩

/-- An action dated anew is signed as before, but for its date. -/
theorem redate_deed : ∃ later, s.redate person deed.draft (deed.draft.sign person date) = deed.draft.sign person later := by
  unfold Store.redate
  split
  · exact ⟨date, rfl⟩
  · split
    · exact ⟨date, rfl⟩
    · split
      · exact ⟨date, rfl⟩
      · split
        · exact ⟨_, rfl⟩
        · exact ⟨date, rfl⟩

/-- An action dated anew is later than each of its kind that is held, if the last of them is
short of the last date there is. -/
theorem redate_later (adds : ∀ date : Timestamp, date.toNat + 1 < 2 ^ 64 → date < Nostr.add date 1) {held : Deed}
    {earlier : Timestamp} (known : ordered.contains deed.kind = true) (kind : held.kind = deed.kind)
    (group : held.group = deed.group) (there : held.draft.sign person earlier ∈ s.events)
    (short : ((s.lastOf person deed.kind deed.group).all fun n => n.toNat + 1 < 2 ^ 64) = true) :
    earlier < (s.redate person deed.draft (deed.draft.sign person date)).createdAt := by
  obtain ⟨n, last, least⟩ := lastOf_deed (kind ▸ known) there
  rw [kind, group] at last
  have own : (deed.draft.sign person date).kind = deed.kind := rfl
  rw [last, Option.all_some, decide_eq_true_eq] at short
  rw [Store.redate, own, known, groupOf_deed known]
  simp only [Bool.not_true, Bool.false_eq_true, if_false, last]
  split
  · exact least.trans_lt (adds n short)
  · rename_i after
    exact least.trans_lt (not_le.mp after)

end Rows

/-- Past the store, and not refused. -/
def Phase.isStored : Phase → Bool
  | .deleting | .naming | .removing _ | .opening | .capping | .listing | .refolding _ | .settling _ _ | .purging _ => true
  | .ended verdict => verdict.accepted
  | _ => false

section Host
variable [NostrEvents] [Devices] [Wraps] {h : Host} {known : List Event} {row : Event} {act : Host.Act} {c : Call}
  {node : Inner} {task : ℕ}

/-- A call past the store was so before its step, or was about to store. -/
theorem Call.stored_next (stored : (c.next node).2.isStored = true) : c.phase.isStored = true ∨ c.phase = .storing := by
  by_cases early : c.phase.isEarly = true
  · rcases Call.next_early node early with ⟨verdict, ended, refused⟩ | early' | ⟨_, storing, _⟩
    · rw [ended, Phase.isStored, refused] at stored
      cases stored
    · revert stored early'
      cases (c.next node).2 <;> nofun
    · rw [storing] at stored
      cases stored
  · rcases c with ⟨ev, source, now, phase⟩
    cases phase
    case storing => exact .inr rfl
    case ended verdict => exact .inl stored
    all_goals first | exact .inl rfl | exact absurd rfl early

/-- A call stays where it is among the tasks, with its event and, once it has ended, its
verdict. -/
theorem Host.task_stays (here : h.tasks[task]? = some (.call c)) :
    ∃ later, (h.step act).tasks[task]? = some (.call later) ∧ later.event = c.event ∧
      ∀ verdict, c.phase = .ended verdict → later.phase = .ended verdict := by
  have within := (List.getElem?_eq_some_iff.mp here).1
  have taken : ∀ t, (h.take t).tasks[task]? = some (.call c) := fun t => by
    unfold Host.take
    split
    · exact here
    · rw [List.getElem?_append_left within, here]
  cases act with
  | load =>
    have same : (h.step .load).tasks = h.tasks := by
      simp only [Host.step, Host.load]
      split <;> rfl
    exact ⟨c, same ▸ here, rfl, fun _ ended => ended⟩
  | enter ev source now => exact ⟨c, taken _, rfl, fun _ ended => ended⟩
  | look => exact ⟨c, taken _, rfl, fun _ ended => ended⟩
  | write ev now => exact ⟨c, here, rfl, fun _ ended => ended⟩
  | turn i =>
    rcases Host.turn_cases h i with same | ⟨t, turned⟩
    · exact ⟨c, same.symm ▸ here, rfl, fun _ ended => ended⟩
    · rw [turned.tasks]
      by_cases own : i = task
      · subst own
        have same := Option.some.inj (turned.here.symm.trans here)
        subst same
        refine ⟨{ c with phase := (c.next h.shared).2 }, List.getElem?_set_self within, rfl, fun verdict ended => ?_⟩
        simp only [Call.next, ended]
      · exact ⟨c, by rw [List.getElem?_set_ne own, here], rfl, fun _ ended => ended⟩

/-- An action of an ordered kind that is held stays held. -/
theorem Host.row_stays (named : h.Named known) (distinct : (known.map Event.id).Nodup)
    (kind : ordered.contains row.kind = true) (held : row ∈ h.shared.store.events) :
    row ∈ (h.step act).shared.store.events := by
  obtain ⟨_, _, _, firm, aside⟩ := ordered_kinds kind
  have inserted : ∀ ev, row ∈ (h.shared.store.insert ev).1.events := fun ev => by
    rw [Store.mem_insert]
    split
    · exact .inr ⟨held, sameSlot_ordered kind⟩
    · exact held
  have taken : ∀ t, row ∈ (h.take t).shared.store.events := fun t => by
    unfold Host.take
    split <;> exact held
  cases act with
  | load =>
    have same : (h.step .load).shared.store = h.shared.store := by
      simp only [Host.step, Host.load]
      split <;> rfl
    exact same ▸ held
  | enter ev source now => exact taken _
  | look => exact taken _
  | write ev now => exact inserted ev
  | turn i =>
    rcases Host.turn_cases h i with same | ⟨t, turned⟩
    · exact same.symm ▸ held
    · rw [turned.shared]
      rcases Task.rows_next t h.shared aside with ⟨ev, _, rows⟩ | ⟨_, _, spared⟩
      · exact rows.mpr (inserted ev)
      · exact spared firm held (named.spared distinct (List.mem_of_getElem? turned.here) held aside firm)

/-- Every call past the store has its event held, if it is of an ordered kind. -/
def Host.Holds (h : Host) : Prop :=
  ∀ c, .call c ∈ h.tasks → ordered.contains c.event.kind = true → c.phase.isStored = true →
    c.event ∈ h.shared.store.events

omit [Devices] [Wraps] in
/-- What is stored, and has the id of no other row, is held then. -/
theorem Store.mem_insert_ordered {s : Store} {ev : Event} (kind : ordered.contains ev.kind = true)
    (own : ∀ row ∈ s.events, row.id = ev.id → row = ev) : ev ∈ (s.insert ev).1.events := by
  rw [Store.mem_insert]
  split
  · exact .inl rfl
  · rename_i old
    rw [Store.insert_regular (slot_ordered kind)] at old
    simp only [not_forall, not_not] at old
    obtain ⟨row, held, same⟩ := old
    exact own row held same ▸ held

theorem Host.Holds.step (holds : h.Holds) (named : h.Named known) (distinct : (known.map Event.id).Nodup)
    (own : ∀ i ev source now, act = .turn i → h.tasks[i]? = some (.call ⟨ev, source, now, .storing⟩) →
      ∀ row ∈ h.shared.store.events, row.id = ev.id → row = ev) : (h.step act).Holds := by
  intro c listed kind stored
  have old : .call c ∈ h.tasks → c.event ∈ (h.step act).shared.store.events := fun there =>
    Host.row_stays named distinct kind (holds c there kind stored)
  have taken : ∀ t : Task, .call c ∈ (h.take t).tasks → .call c ∈ h.tasks ∨ .call c = t := fun t listed => by
    unfold Host.take at listed
    split at listed
    · exact .inl listed
    · exact (List.mem_append.mp listed).imp_right List.mem_singleton.mp
  cases act with
  | load =>
    have same : (h.step .load).tasks = h.tasks := by
      simp only [Host.step, Host.load]
      split <;> rfl
    exact old (same ▸ listed)
  | enter ev source now =>
    rcases taken _ listed with there | same
    · exact old there
    · cases same
      cases stored
  | look =>
    rcases taken _ listed with there | same
    · exact old there
    · cases same
  | write ev now => exact old listed
  | turn i =>
    rcases Host.turn_cases h i with same | ⟨t, turned⟩
    · exact old (same ▸ listed)
    · rcases turned.mem listed with after | ⟨j, _, there⟩
      · cases t with
        | look l => cases after
        | call c' =>
          simp only [Task.next, Task.call.injEq] at after
          subst after
          have there : .call c' ∈ h.tasks := List.mem_of_getElem? turned.here
          rcases Call.stored_next stored with before | storing
          · exact Host.row_stays named distinct kind (holds c' there kind before)
          · rcases c' with ⟨ev, source, now, phase⟩
            cases storing
            rw [turned.shared]
            exact Store.mem_insert_ordered kind (own i ev source now rfl turned.here)
      · exact old (List.mem_of_getElem? there)

end Host

/-- Two actions of one ordered kind in one group. -/
structure Signing.Alike (s u : Signing) : Prop where
  kind : ordered.contains s.deed.kind = true
  kinds : s.deed.kind = u.deed.kind
  groups : s.deed.group = u.deed.group

theorem Signing.Alike.symm {s u : Signing} (alike : s.Alike u) : u.Alike s :=
  ⟨alike.kinds ▸ alike.kind, alike.kinds.symm, alike.groups.symm⟩

namespace Author

section Steps
variable [NostrEvents] [Devices] [Wraps] {known : List Event} {a later : Author} {s u : Signing} {i j : ℕ} {verdict : Verdict}

/-- Whatever is under way is what its call signed, and is accepted as its own event; and no
two alike that were dated and not refused have one date. -/
structure Dated (known : List Event) (a : Author) : Prop where
  up : a.host.starting = .up
  named : a.host.Named known
  holds : a.host.Holds
  signed : ∀ s ∈ a.signings, ∃ date, s.event = s.deed.draft.sign a.me date
  linked : ∀ s ∈ a.signings, ∀ task, s.stage = .published task → ∃ c, a.host.tasks[task]? = some (.call c) ∧ c.event = s.event
  apart : ∀ (i j : ℕ) (s u : Signing), i ≠ j → a.signings[i]? = some s → a.signings[j]? = some u → s.stage.isDated = true →
    u.stage.isDated = true → a.isRefused s = false → a.isRefused u = false → s.Alike u → s.event.createdAt ≠ u.event.createdAt

omit [Devices] [Wraps] in
/-- A call returns with what its task ended with. -/
theorem verdict_eq_some : a.verdict s = some verdict ↔
    ∃ task c, s.stage = .published task ∧ a.host.tasks[task]? = some (.call c) ∧ c.phase = .ended verdict := by
  unfold Author.verdict
  constructor
  · intro is
    split at is
    · rename_i task stage
      split at is
      · rename_i here
        cases is
        exact ⟨task, _, stage, here, rfl⟩
      · cases is
    · cases is
  · rintro ⟨task, ⟨ev, source, now, phase⟩, stage, here, ended⟩
    cases ended
    simp only [stage, here]

/-- What a call returned with stays. -/
theorem verdict_host (is : a.verdict s = some verdict) {act : Host.Act} (host : later.host = a.host.step act) :
    later.verdict s = some verdict := by
  obtain ⟨task, c, stage, here, ended⟩ := verdict_eq_some.mp is
  obtain ⟨after, there, _, same⟩ := @Host.task_stays _ _ _ a.host act c task here
  exact verdict_eq_some.mpr ⟨task, after, stage, host ▸ there, same verdict ended⟩

theorem refused_host {act : Host.Act} (host : later.host = a.host.step act) (open_ : later.isRefused s = false) :
    a.isRefused s = false := by
  rw [Bool.eq_false_iff] at open_ ⊢
  intro refused
  obtain ⟨verdict, is, no⟩ := (Option.any_eq_true ..).mp refused
  exact open_ ((Option.any_eq_true ..).mpr ⟨verdict, verdict_host is host, no⟩)

omit [Devices] [Wraps] in
/-- A call whose event is accepted has dated it, and is not refused. -/
theorem dated_of_accepted (accepted : a.isAccepted s = true) : s.stage.isDated = true ∧ a.isRefused s = false := by
  obtain ⟨verdict, is, yes⟩ := (Option.any_eq_true ..).mp accepted
  obtain ⟨task, c, stage, _, _⟩ := verdict_eq_some.mp is
  exact ⟨by rw [stage]; rfl, by simp [Author.isRefused, is, yes]⟩

omit [Devices] [Wraps] in
/-- The event of a call that returned with it accepted is held. -/
theorem Dated.held (dated : Dated known a) (listed : s ∈ a.signings) (kind : ordered.contains s.deed.kind = true)
    (accepted : a.isAccepted s = true) : s.event ∈ a.host.shared.store.events := by
  obtain ⟨verdict, is, yes⟩ := (Option.any_eq_true ..).mp accepted
  obtain ⟨task, c, stage, here, ended⟩ := verdict_eq_some.mp is
  obtain ⟨own, there, same⟩ := dated.linked s listed task stage
  cases Option.some.inj (here.symm.trans there)
  obtain ⟨date, signed⟩ := dated.signed s listed
  rw [← same]
  refine dated.holds c (List.mem_of_getElem? here) ?_ ?_
  · rw [same, signed]
    exact kind
  · rw [ended]
    exact yes

omit [NostrEvents] [Devices] [Wraps] in
theorem getElem?_set_cases {l : List Signing} {x y : Signing} (found : (l.set i x)[j]? = some y) :
    (j = i ∧ y = x) ∨ (j ≠ i ∧ l[j]? = some y) := by
  rw [List.getElem?_set] at found
  split at found
  · rename_i same
    split at found
    · exact .inl ⟨same.symm, (Option.some.inj found).symm⟩
    · cases found
  · rename_i other
    exact .inr ⟨Ne.symm other, found⟩

omit [Devices] [Wraps] in
theorem names_host {act : Host.Act} (names : a.names known (.host act) = true) :
    (∀ ev, act.brings = some ev → ev ∈ known) ∧
      ∀ i ev source now, act = .turn i → a.host.tasks[i]? = some (.call ⟨ev, source, now, .storing⟩) →
        ∀ row ∈ a.host.shared.store.events, row.id = ev.id → row = ev := by
  cases act with
  | turn i =>
    refine ⟨nofun, fun j ev source now same here row held id => ?_⟩
    cases same
    simp only [Author.names, here, List.all_eq_true, Bool.or_eq_true, bne_iff_ne, ne_eq, beq_iff_eq] at names
    exact (names row held).resolve_left (not_not.mpr id)
  | enter ev source now =>
    refine ⟨fun other same => ?_, nofun⟩
    cases same
    exact List.contains_iff_mem.mp names
  | write ev now =>
    refine ⟨fun other same => ?_, nofun⟩
    cases same
    exact List.contains_iff_mem.mp names
  | load => exact ⟨nofun, nofun⟩
  | look => exact ⟨nofun, nofun⟩

/-- The node takes a step, and each call that has published has its task as before. -/
theorem Dated.host (dated : Dated known a) (distinct : (known.map Event.id).Nodup) {act : Host.Act}
    (brings : ∀ ev, act.brings = some ev → ev ∈ known)
    (own : ∀ i ev source now, act = .turn i → a.host.tasks[i]? = some (.call ⟨ev, source, now, .storing⟩) →
      ∀ row ∈ a.host.shared.store.events, row.id = ev.id → row = ev) :
    (a.host.step act).starting = .up ∧ (a.host.step act).Named known ∧ (a.host.step act).Holds ∧
      ∀ s ∈ a.signings, ∀ task, s.stage = .published task →
        ∃ c, (a.host.step act).tasks[task]? = some (.call c) ∧ c.event = s.event := by
  refine ⟨Host.step_up dated.up act, dated.named.step brings, dated.holds.step dated.named distinct own, ?_⟩
  intro s listed task stage
  obtain ⟨c, here, same⟩ := dated.linked s listed task stage
  obtain ⟨after, there, event, _⟩ := @Host.task_stays _ _ _ a.host act c task here
  exact ⟨after, there, event.trans same⟩

omit [Devices] [Wraps] in
/-- A call dates its event once it has signed it. -/
theorem date_cases (a : Author) (i : ℕ) : a.date i = a ∨
    ∃ deed ev, a.signings[i]? = some ⟨deed, ev, .signed⟩ ∧ a.date i = { a with
      signings := a.signings.set i ⟨deed, a.host.shared.store.redate a.me deed.draft ev, .dated⟩ } := by
  unfold Author.date
  split
  · rename_i deed ev here
    exact .inr ⟨deed, ev, here, rfl⟩
  · exact .inl rfl

/-- A call publishes its event once it has dated it. -/
theorem publish_cases (a : Author) (i : ℕ) (now : Timestamp) : a.publish i now = a ∨
    ∃ deed ev, a.signings[i]? = some ⟨deed, ev, .dated⟩ ∧ a.host.starting = .up ∧ a.publish i now = { a with
      host := a.host.step (.enter ev .local_ now)
      signings := a.signings.set i ⟨deed, ev, .published a.host.tasks.length⟩ } := by
  unfold Author.publish
  split
  · rename_i deed ev here up
    exact .inr ⟨deed, ev, here, up, rfl⟩
  · exact .inl rfl

omit [Devices] [Wraps] in
theorem mem_set {x y : Signing} (member : y ∈ a.signings.set i x) : y = x ∨ y ∈ a.signings :=
  (List.mem_or_eq_of_mem_set member).symm

variable (adds : ∀ date : Timestamp, date.toNat + 1 < 2 ^ 64 → date < Nostr.add date 1) (distinct : (known.map Event.id).Nodup)
include adds

omit [Devices] [Wraps] in
/-- Dated anew, an action is later than each alike that is held. -/
theorem later_of_date {deed held : Deed} {ev : Event} {date earlier : Timestamp} (signed : ev = deed.draft.sign a.me date)
    (here : a.signings[i]? = some ⟨deed, ev, .signed⟩) (clear : a.clear (.date i) = true)
    (kind : ordered.contains deed.kind = true) (kinds : held.kind = deed.kind) (groups : held.group = deed.group)
    (there : held.draft.sign a.me earlier ∈ a.host.shared.store.events) :
    earlier < (a.host.shared.store.redate a.me deed.draft ev).createdAt := by
  simp only [Author.clear, here, Bool.and_eq_true] at clear
  rw [signed]
  exact redate_later adds kind kinds groups there clear.1

include distinct

theorem Dated.step (dated : Dated known a) {act : Act} (meets : a.meets known act = true) : Dated known (a.step act) := by
  rw [Author.meets, Bool.and_eq_true] at meets
  obtain ⟨clear, names⟩ := meets
  cases act with
  | host act =>
    obtain ⟨brings, own⟩ := names_host names
    obtain ⟨up, named, holds, linked⟩ := dated.host distinct brings own
    refine ⟨up, named, holds, dated.signed, linked, fun i j s u other one two first second open_ open' alike => ?_⟩
    exact dated.apart i j s u other one two first second (refused_host rfl open_) (refused_host rfl open') alike
  | sign deed now =>
    have old : ∀ {j : ℕ} {s : Signing}, (a.signings ++ [⟨deed, deed.draft.sign a.me now, .signed⟩])[j]? = some s →
        s.stage.isDated = true → a.signings[j]? = some s := by
      intro j s found dated
      rw [List.getElem?_append] at found
      split at found
      · exact found
      · cases List.mem_singleton.mp (List.mem_of_getElem? found)
        cases dated
    refine ⟨dated.up, dated.named, dated.holds, fun s listed => ?_, fun s listed task stage => ?_, ?_⟩
    · rcases List.mem_append.mp listed with before | new
      · exact dated.signed s before
      · cases List.mem_singleton.mp new
        exact ⟨now, rfl⟩
    · rcases List.mem_append.mp listed with before | new
      · exact dated.linked s before task stage
      · cases List.mem_singleton.mp new
        cases stage
    · intro i j s u other one two first second open_ open' alike
      exact dated.apart i j s u other (old one first) (old two second) first second open_ open' alike
  | date i =>
    rcases date_cases a i with same | ⟨deed, ev, here, moved⟩
    · rw [Author.step, same]
      exact dated
    · have clear' := clear
      simp only [Author.clear, here, Bool.and_eq_true, List.all_eq_true, Bool.not_eq_true'] at clear'
      obtain ⟨date, signed⟩ := dated.signed _ (List.mem_of_getElem? here)
      -- Another that is alike is under way, and no rival, or returned, and is held.
      have key : ∀ (j : ℕ) (u : Signing), a.signings[j]? = some u → u.stage.isDated = true → a.isRefused u = false →
          ordered.contains deed.kind = true → u.deed.kind = deed.kind → u.deed.group = deed.group →
          u.event.createdAt ≠ (a.host.shared.store.redate a.me deed.draft ev).createdAt := by
        intro j u found first open_ kind kinds groups
        have listed := List.mem_of_getElem? found
        cases is : a.verdict u with
        | none =>
          have apart := clear'.2 u listed
          intro same
          simp [Author.rivals, first, is, kinds, groups, same] at apart
        | some verdict =>
          rw [Author.isRefused, is, Option.any_some, Bool.not_eq_false'] at open_
          have held := dated.held listed (kinds ▸ kind) (by rw [Author.isAccepted, is, Option.any_some, open_])
          obtain ⟨earlier, own⟩ := dated.signed u listed
          have after := later_of_date adds signed here clear kind kinds groups (own ▸ held)
          rw [own]
          exact after.ne
      rw [Author.step, moved]
      refine ⟨dated.up, dated.named, dated.holds, fun s listed => ?_, fun s listed task stage => ?_, ?_⟩
      · rcases mem_set listed with rfl | before
        · obtain ⟨later, redated⟩ := @redate_deed _ a.host.shared.store deed a.me date
          have signed : ev = deed.draft.sign a.me date := signed
          exact ⟨later, signed ▸ redated⟩
        · exact dated.signed s before
      · rcases mem_set listed with rfl | before
        · cases stage
        · exact dated.linked s before task stage
      · intro j k s u other one two first second open_ open' alike
        rcases getElem?_set_cases one with ⟨rfl, rfl⟩ | ⟨_, before⟩
        · rcases getElem?_set_cases two with ⟨same, _⟩ | ⟨_, before'⟩
          · exact absurd same.symm other
          · exact (key k u before' second open' alike.kind alike.kinds.symm alike.groups.symm).symm
        · rcases getElem?_set_cases two with ⟨_, rfl⟩ | ⟨_, before'⟩
          · exact key j s before first open_ (alike.kinds ▸ alike.kind) alike.kinds alike.groups
          · exact dated.apart j k s u other before before' first second open_ open' alike
  | publish i now =>
    rcases publish_cases a i now with same | ⟨deed, ev, here, up, moved⟩
    · rw [Author.step, same]
      exact dated
    · have listed := List.mem_of_getElem? here
      have brings : ∀ other, Host.Act.brings (.enter ev .local_ now) = some other → other ∈ known := by
        intro other same
        cases same
        simp only [Author.names, here, Option.all_some] at names
        exact List.contains_iff_mem.mp names
      obtain ⟨up, named, holds, linked⟩ := dated.host distinct brings nofun
      have last : (a.host.step (.enter ev .local_ now)).tasks[a.host.tasks.length]? =
          some (.call { event := ev, source := .local_, now := now }) := by
        simp only [Host.step, Host.take, dated.up]
        exact List.getElem?_concat_length
      rw [Author.step, moved]
      refine ⟨up, named, holds, fun s member => ?_, fun s member task stage => ?_, ?_⟩
      · rcases mem_set member with rfl | before
        · obtain ⟨date, signed⟩ := dated.signed _ listed
          exact ⟨date, signed⟩
        · exact dated.signed s before
      · rcases mem_set member with rfl | before
        · cases stage
          exact ⟨_, last, rfl⟩
        · exact linked s before task stage
      · -- What is published has not returned before, nor does it now.
        have old : ∀ {j : ℕ} {s : Signing}, (a.signings.set i ⟨deed, ev, .published a.host.tasks.length⟩)[j]? = some s →
            s.stage.isDated = true →
            ∃ before, a.signings[j]? = some before ∧ before.stage.isDated = true ∧ before.deed = s.deed ∧
              before.event = s.event ∧ (Author.isRefused { a with
                host := a.host.step (.enter ev .local_ now)
                signings := a.signings.set i ⟨deed, ev, .published a.host.tasks.length⟩ } s = false →
                a.isRefused before = false) := by
          intro j s found first
          rcases getElem?_set_cases found with ⟨rfl, rfl⟩ | ⟨_, before⟩
          · exact ⟨_, here, rfl, rfl, rfl, fun _ => rfl⟩
          · have entered : ∀ {b : Author}, b.host = a.host.step (.enter ev .local_ now) → b.isRefused s = false →
                a.isRefused s = false := refused_host
            exact ⟨s, before, first, rfl, rfl, entered rfl⟩
        intro j k s u other one two first second open_ open' alike
        obtain ⟨s', before, first', deed', event', refused'⟩ := old one first
        obtain ⟨u', before'', second', deed'', event'', refused''⟩ := old two second
        rw [← event', ← event'']
        refine dated.apart j k s' u' other before before'' first' second' (refused' open_) (refused'' open') ⟨?_, ?_, ?_⟩
        · rw [deed']
          exact alike.kind
        · rw [deed', deed'']
          exact alike.kinds
        · rw [deed', deed'']
          exact alike.groups

/-- What was done is held, and whatever is alike and was signed since is later. -/
structure After (known : List Event) (deed : Deed) (earlier : Timestamp) (since : ℕ) (a : Author) : Prop where
  dated : Dated known a
  held : deed.draft.sign a.me earlier ∈ a.host.shared.store.events
  later : ∀ (j : ℕ) (u : Signing), since ≤ j → a.signings[j]? = some u → u.stage.isDated = true →
    deed.kind = u.deed.kind → deed.group = u.deed.group → earlier < u.event.createdAt

theorem After.step {deed : Deed} {earlier : Timestamp} {since : ℕ} (kind : ordered.contains deed.kind = true)
    (after : After known deed earlier since a) {act : Act} (meets : a.meets known act = true) :
    After known deed earlier since (a.step act) := by
  have dated := after.dated.step adds distinct meets
  have stays : ∀ {act : Host.Act}, deed.draft.sign a.me earlier ∈ (a.host.step act).shared.store.events :=
    Host.row_stays after.dated.named distinct kind after.held
  cases act with
  | host act => exact ⟨dated, stays, after.later⟩
  | sign next now =>
    refine ⟨dated, after.held, fun j u late found first => ?_⟩
    simp only [Author.step, List.getElem?_append] at found
    split at found
    · exact after.later j u late found first
    · cases List.mem_singleton.mp (List.mem_of_getElem? found)
      cases first
  | date i =>
    rcases date_cases a i with same | ⟨next, ev, here, moved⟩
    · rw [Author.step, same]
      exact after
    · rw [Author.step, moved] at dated ⊢
      refine ⟨dated, after.held, fun j u late found first kinds groups => ?_⟩
      rcases getElem?_set_cases found with ⟨_, rfl⟩ | ⟨_, before⟩
      · obtain ⟨date, signed⟩ := after.dated.signed _ (List.mem_of_getElem? here)
        rw [Author.meets, Bool.and_eq_true] at meets
        exact later_of_date adds signed here meets.1 (kinds ▸ kind) kinds groups after.held
      · exact after.later j u late before first kinds groups
  | publish i now =>
    rcases publish_cases a i now with same | ⟨next, ev, here, _, moved⟩
    · rw [Author.step, same]
      exact after
    · rw [Author.step, moved] at dated ⊢
      refine ⟨dated, stays, fun j u late found first kinds groups => ?_⟩
      rcases getElem?_set_cases found with ⟨rfl, rfl⟩ | ⟨_, before⟩
      · exact after.later j ⟨next, ev, .dated⟩ late here rfl kinds groups
      · exact after.later j u late before first kinds groups

end Steps

section Order
variable [Nostr]

/-- Of two actions alike that were accepted, no two have one date. -/
def DatedApart (a : Author) : Prop :=
  ∀ (i j : ℕ) (s u : Signing), i ≠ j → a.signings[i]? = some s → a.signings[j]? = some u → a.isAccepted s = true →
    a.isAccepted u = true → s.Alike u → s.event.createdAt ≠ u.event.createdAt

/-- An action signed since `mid` is dated, and folded, after each alike accepted by then. -/
def DatedAfter (mid a : Author) : Prop :=
  ∀ (i j : ℕ) (s u : Signing), mid.signings[i]? = some s → mid.isAccepted s = true → mid.signings.length ≤ j →
    a.signings[j]? = some u → u.stage.isDated = true → s.Alike u →
      s.event.createdAt < u.event.createdAt ∧ sortKey s.event < sortKey u.event

end Order

end Author

/-- In a run in which no call gives its event the date of one alike that is under way, one's own
actions of a kind in a group have different dates, and one made after another had returned
comes after it. -/
theorem own_ordered [NostrEvents] [Devices] [Wraps]
    (adds : ∀ date : Timestamp, date.toNat + 1 < 2 ^ 64 → date < Nostr.add date 1) {h : Host} {me : PublicKey}
    {known : List Event} {acts more : List Author.Act} (distinct : (known.map Event.id).Nodup) (up : h.starting = .up)
    (idle : h.tasks = []) (kept : ∀ row ∈ h.shared.store.events, row ∈ known)
    (met : Met (Author.meets known) Author.step { host := h, me := me } (acts ++ more)) :
    (run Author.step { host := h, me := me } (acts ++ more)).DatedApart ∧
      Author.DatedAfter (run Author.step { host := h, me := me } acts)
        (run Author.step { host := h, me := me } (acts ++ more)) := by
  have initial : Author.Dated known { host := h, me := me } := by
    refine ⟨up, ⟨fun row held _ => kept row held, ?_, ?_⟩, ?_, nofun, nofun, nofun⟩
    all_goals
      intro c listed
      rw [idle] at listed
      cases listed
  have steps : ∀ a act, Author.meets known a act = true → Author.Dated known a → Author.Dated known (a.step act) :=
    fun a act meets dated => dated.step adds distinct meets
  have last := run_invariant steps met initial
  obtain ⟨first, rest⟩ := met_append.mp met
  have mid := run_invariant steps first initial
  constructor
  · intro i j s u other one two accepted accepted' alike
    obtain ⟨first, open_⟩ := Author.dated_of_accepted accepted
    obtain ⟨second, open'⟩ := Author.dated_of_accepted accepted'
    exact last.apart i j s u other one two first second open_ open' alike
  · intro i j s u found accepted late found' dated alike
    have listed := List.mem_of_getElem? found
    have held := mid.held listed alike.kind accepted
    obtain ⟨date, signed⟩ := mid.signed s listed
    have begins : Author.After known s.deed date (run Author.step { host := h, me := me } acts).signings.length
        (run Author.step { host := h, me := me } acts) := by
      refine ⟨mid, signed ▸ held, fun k v late found => ?_⟩
      rw [List.getElem?_eq_none late] at found
      cases found
    have ends := run_invariant (fun a act meets after => after.step adds distinct alike.kind meets) rest begins
    rw [run, run, ← List.foldl_append] at ends
    have later := ends.later j u late found' dated alike.kinds alike.groups
    have own : s.event.createdAt = date := by
      rw [signed]
      rfl
    rw [own]
    refine ⟨later, Prod.Lex.toLex_lt_toLex.mpr (.inl ?_)⟩
    rw [own]
    exact later

section Renames
variable [NostrEvents] [Devices] [Wraps]

/-- The founder's node, carrying their new club. -/
def founderHost : Host :=
  .started (({} : Store).insertAll (genesis founder club "club" true 100)) [club] founder 600 ∅ []

/-- The founder names the club anew. -/
def rename (name : String) : Deed := ⟨editMetadata, club, [["name", name]]⟩

/-- Call `i` publishes, as task `i`, and nothing else happens until it has returned. -/
def published (i : ℕ) : List Author.Act := .publish i 600 :: List.replicate 12 (.host (.turn i))

/-- The club is named `day`, and the call returns. -/
def day : List Author.Act := [.sign (rename "day") 450, .date 0] ++ published 0

/-- Then it is named `night`, in the same second. -/
def night : List Author.Act := [.sign (rename "night") 450, .date 1] ++ published 1

/-- The founder names the club `day` and `night` in one second, and both calls read what is held
before either publishes. -/
def atOnce : Author :=
  run Author.step { host := founderHost, me := founder }
    ([.sign (rename "day") 450, .sign (rename "night") 450, .date 0, .date 1] ++ published 0 ++ published 1)

end Renames

theorem plainAdd_later {date : Timestamp} (short : date.toNat + 1 < 2 ^ 64) : date < plainAdd date 1 := by
  have one : (1 : UInt64).toNat = 1 := rfl
  have added : plainAdd date 1 = ⟨date.secs + 1⟩ := if_pos short
  have value : (plainAdd date 1).toNat = date.toNat + 1 := by
    rw [added, Timestamp.toNat, UInt64.toNat_add, one]
    exact Nat.mod_eq_of_lt short
  show date.toNat < (plainAdd date 1).toNat
  omega

theorem own_ordered_night :
    (run Author.step { host := founderHost, me := founder } (day ++ night)).DatedApart ∧
      Author.DatedAfter (run Author.step { host := founderHost, me := founder } day)
        (run Author.step { host := founderHost, me := founder } (day ++ night)) :=
  @own_ordered _ _ _ (fun _ => plainAdd_later) founderHost founder
    (founderHost.shared.store.events ++ [(rename "day").draft.sign founder 450, (rename "night").draft.sign founder 451])
    day night (by decide +kernel) rfl rfl (by decide +kernel) (by decide +kernel)

/-- An id of its own for each length of an event's tags, too. -/
abbrev taggedEvents : NostrEvents :=
  { plainEvents with
    eventId := fun key date kind tags _ =>
      ⟨BitVec.ofNat 256 (fingerprint key date kind * 2 ^ 16 + (tags.flatten.map String.length).sum)⟩ }

/-- Were the actions of the first two calls accepted, alike, and of one date? -/
def Author.ties [Nostr] (a : Author) : Bool :=
  match a.signings with
  | s :: u :: _ =>
    a.isAccepted s && a.isAccepted u && ordered.contains s.deed.kind && s.deed.kind == u.deed.kind &&
      s.deed.group == u.deed.group && s.event.createdAt == u.event.createdAt
  | _ => false

theorem Author.not_datedApart [Nostr] {a : Author} (ties : a.ties = true) : ¬ a.DatedApart := by
  intro apart
  unfold Author.ties at ties
  split at ties
  · rename_i s u rest signings
    simp only [Bool.and_eq_true, beq_iff_eq] at ties
    obtain ⟨⟨⟨⟨⟨accepted, accepted'⟩, kind⟩, kinds⟩, groups⟩, date⟩ := ties
    have first : a.signings[0]? = some s := by rw [signings]; rfl
    have second : a.signings[1]? = some u := by rw [signings]; rfl
    exact apart 0 1 s u (by decide) first second accepted accepted' ⟨kind, kinds, groups⟩ date
  · cases ties

/-- Both are accepted then, with one date. -/
theorem atOnce_ties : ¬ @Author.DatedApart taggedEvents.toNostr (@atOnce taggedEvents _ _) :=
  @Author.not_datedApart taggedEvents.toNostr (@atOnce taggedEvents _ _) (by decide +kernel)

end HitEnter.Node
