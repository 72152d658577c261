import HitEnter.Node.HostSpec
import HitEnter.Node.TagIndex

/-! Whether what a silenced person said stays, whatever the calls and looks of a node do
one between the other's steps. The judge reads keys and dates, the purge asks the store by
a key's text and by dates as the columns hold them. -/

namespace HitEnter.Node

open Wire HitEnter.Group Lib.Runs Lib.Turns

section Silenced
variable [Nostr]

/-- Is `row` said in `group` by someone whom the state in memory silences at its date? -/
def Inner.silences (node : Inner) (group : PublicKey) (row : Event) : Bool :=
  deletableKinds.contains row.kind && groupOf row == some group &&
    (node.groups.state group).any fun s => (s.silenceAt row.pubkey row.createdAt).isSome

/-- Does a span of its author's hold the date of `row`, as columns compare them? -/
def datedIn (row : Event) (span : Silence) : Bool :=
  span.who == row.pubkey && span.until_.all (span.since < ·) && column span.since ≤ column row.createdAt &&
    span.until_.all fun u => column row.createdAt ≤ column ⟨u.secs - 1⟩

/-- Everything held that `group` silences has the group's own text for an `h` tag, and is
dated in a span of its author's as columns compare them. -/
def Inner.sweeps (node : Inner) (group : PublicKey) : Bool :=
  node.store.events.all fun row => !node.silences group row ||
    (groupTexts row).contains (Nostr.toHex group) &&
      (node.groups.state group).any fun s => s.silences.any (datedIn row)

/-- No message or reaction of a silenced person is held. -/
def Inner.Quieted (node : Inner) : Prop := ∀ row ∈ node.store.events, ∀ g, node.silences g row = false

theorem Inner.mem_silenced {node : Inner} {g : PublicKey} {row : Event} (held : row ∈ node.store.events)
    (silenced : node.silences g row = true) (sweeps : node.sweeps g = true) : row.id ∈ node.silenced g := by
  have swept := List.all_eq_true.mp sweeps row held
  simp only [silenced, Bool.not_true, Bool.false_or, Bool.and_eq_true, List.contains_iff_mem] at swept
  obtain ⟨spelled, dated⟩ := swept
  obtain ⟨s, found, listed⟩ := (Option.any_eq_true _ _).mp dated
  obtain ⟨span, member, fits⟩ := List.any_eq_true.mp listed
  simp only [Inner.silences, Bool.and_eq_true] at silenced
  simp only [datedIn, Bool.and_eq_true, beq_iff_eq] at fits
  obtain ⟨⟨⟨who, room⟩, since⟩, until_⟩ := fits
  rw [Inner.silenced, found]
  refine List.mem_flatMap.mpr ⟨span, member, ?_⟩
  have open_ : span.until_.any (· ≤ span.since) = false := by
    cases ends : span.until_ with
    | none => rfl
    | some u =>
      rw [ends] at room
      simpa using room
  rw [Store.authoredIn, open_]
  refine List.mem_map_of_mem ((mem_query_inGroup rfl rfl).mpr ⟨held, ?_, spelled⟩)
  have upto : (span.until_.map fun u => (⟨u.secs - 1⟩ : Timestamp)).all
      (fun u => decide (column row.createdAt ≤ column u)) = true := by
    cases ends : span.until_ with
    | none => rfl
    | some u =>
      rw [ends] at until_
      exact until_
  simp only [Filter.selects, Option.all_none, Option.all_some, List.all_nil, Bool.and_true, who, List.contains_cons,
    beq_self_eq_true, Bool.true_or, silenced.1.1, since, upto]

end Silenced

section Steps
variable [NostrEvents] {a b node : Inner} {g : PublicKey} {row : Event}

/-- A message or reaction that is judged well is not silenced. -/
private theorem judged_unsilenced {source : Source} {now : Timestamp} {judgement : Judgement}
    (judged : node.judged row source now = .ok judgement) (g : PublicKey) : node.silences g row = false := by
  by_contra silenced
  simp only [Bool.not_eq_false, Inner.silences, Bool.and_eq_true, beq_iff_eq, List.contains_iff_mem] at silenced
  obtain ⟨⟨said, own⟩, silenced⟩ := silenced
  rw [Inner.judged_of_not_wrap (group_not_personal own).1] at judged
  obtain ⟨s, found, clear⟩ := judge_unsilenced judged (by simpa [deletableKinds] using said) own
  simp [found, clear] at silenced

private theorem silences_congr (same : b.groups.carried = a.groups.carried) : b.silences g row = a.silences g row := by
  simp only [Inner.silences, Groups.state, same]

/-- A group that is given no state silences whom it silenced. -/
private theorem silences_setState {other : PublicKey} {state : Option GroupState} (apart : other ≠ g) :
    (node.setState other state).silences g row = node.silences g row := by
  have same : (node.setState other state).groups.state g = node.groups.state g := by
    rw [Inner.setState, Groups.state_setState, if_neg fun both => apart both.1]
  simp only [Inner.silences, same]

private theorem aside_of_silenced (silenced : node.silences g row = true) :
    row.kind ≠ deviceBinding ∧ row.kind ≠ giftWrap := by
  have kinds : (deletableKinds.all fun kind => kind != deviceBinding && kind != giftWrap) = true := by decide
  simp only [Inner.silences, Bool.and_eq_true, List.contains_iff_mem] at silenced
  have apart := List.all_eq_true.mp kinds row.kind silenced.1.1
  simpa using apart

/-- What is said in a group is brought in under the lock. -/
private theorem holds_of_pending {c : Call} (pending : c.phase.isPending = true)
    (silenced : node.silences g c.event = true) : (Task.call c).holds ≠ none := by
  simp only [Inner.silences, Bool.and_eq_true, beq_iff_eq] at silenced
  rw [Task.holds, if_pos (Phase.isBusy_of_pending pending)]
  exact Call.needs_of_said silenced.1.2

end Steps

section Run
variable [NostrEvents] [Devices] [Wraps] {h : Host} {i : ℕ} {t : Task}

/-- Nothing but the node's own calls and looks, and what each purge is for it finds. -/
def Host.sweeps (h : Host) : Host.Act → Bool
  | .write _ _ => false
  | .turn i => ((h.tasks[i]?).bind Task.purges).all h.shared.sweeps
  | _ => true

/-- What is on its way in is not silenced, and what is held and silenced is about to be
looked for or dropped. -/
private structure Kept (h : Host) : Prop where
  up : h.starting = .up
  sane : h.Sane
  pending : ∀ c, .call c ∈ h.tasks → c.phase.isPending = true → ∀ g, h.shared.silences g c.event = false
  due : ∀ row ∈ h.shared.store.events, ∀ g, h.shared.silences g row = true →
    ∃ t ∈ h.tasks, t.purges = some g ∨ row.id ∈ t.drops

open Host

/-- A state is written while nobody else is about anything of a group, and its purge is next. -/
private theorem Kept.sets (kept : Kept h) (turned : Turned h i t) {g : PublicKey} {state : Option GroupState}
    (sets : t.sets = some (g, state)) : Kept (h.step (.turn i)) := by
  obtain ⟨written, purges⟩ : (t.next h.shared).1 = _ ∧ (t.next h.shared).2.purges = _ := Task.next_of_sets sets
  have shared : (h.step (.turn i)).shared = h.shared.setState g state := turned.shared.trans written
  refine ⟨turned.starting.trans kept.up, kept.sane.step _, fun c listed pending g' => ?_, fun row held g' silenced => ?_⟩
  · by_contra silenced
    rw [Bool.not_eq_false] at silenced
    rcases turned.mem listed with after | ⟨j, apart, there⟩
    · -- The one that wrote is past the store.
      rw [← after] at purges
      simp only [Task.purges] at purges
      revert purges pending
      cases c.phase <;> simp [Phase.isPending]
    · exact holds_of_pending pending silenced (turned.alone kept.sane (turned.sets_writes kept.sane sets) apart there)
  · by_cases same : g = g'
    · subst same
      exact ⟨_, turned.after, .inl purges⟩
    · rw [shared] at held silenced
      rw [silences_setState same] at silenced
      obtain ⟨u, listed, due⟩ := kept.due row held g' silenced
      rcases turned.stays listed with rfl | after
      · rcases u with ⟨ev, source, now, phase⟩ | l
        · cases phase <;> simp [Task.sets, Task.purges, Task.drops] at sets due
        · cases l <;> simp [Task.sets, Task.purges, Task.drops] at sets due
      · exact ⟨u, after, due⟩

private theorem Kept.still (kept : Kept h) (turned : Turned h i t) (meets : h.sweeps (.turn i) = true)
    (still : t.sets = none) : Kept (h.step (.turn i)) := by
  have carried : (h.step (.turn i)).shared.groups.carried = h.shared.groups.carried := by
    rw [turned.shared]
    exact Task.carried_next still
  have member := List.mem_of_getElem? turned.here
  refine ⟨turned.starting.trans kept.up, kept.sane.step _, fun c listed pending g => ?_, fun row held g silenced => ?_⟩
  · rw [silences_congr carried]
    rcases turned.mem listed with after | ⟨j, _, there⟩
    · cases t with
      | call c' =>
        simp only [Task.next, Task.call.injEq] at after
        subst after
        rcases Call.pending_next pending with before | ⟨_, judgement, judged⟩
        · exact kept.pending c' member before g
        · exact judged_unsilenced judged g
      | look l => cases after
    · exact kept.pending c (List.mem_of_getElem? there) pending g
  · rw [silences_congr carried] at silenced
    rw [turned.shared] at held
    rcases Task.mem_next (aside_of_silenced silenced) held with before | stored
    · obtain ⟨u, listed, due⟩ := kept.due row before g silenced
      rcases turned.stays listed with rfl | after
      · rcases due with purges | drops
        · refine ⟨_, turned.after, .inr ?_⟩
          rw [(Task.next_of_purges purges).2]
          have found : h.shared.sweeps g = true := by
            simpa [Host.sweeps, turned.here, purges] using meets
          exact Inner.mem_silenced before silenced found
        · exact absurd rfl (Task.next_of_drops drops row held)
      · exact ⟨u, after, due⟩
    · -- What was stored had been judged, and no state was written since.
      rcases t with ⟨ev, source, now, phase⟩ | l
      · cases phase
        case storing =>
          cases stored
          rw [kept.pending _ member rfl g] at silenced
          cases silenced
        all_goals cases stored
      · cases stored

private theorem Kept.step (kept : Kept h) (act : Host.Act) (meets : h.sweeps act = true) : Kept (h.step act) := by
  have added : ∀ {task : Task}, (∀ c, task = .call c → c.phase = .waiting) → (h.take task).Sane → Kept (h.take task) := by
    intro task waits sane
    simp only [Host.take, kept.up] at sane ⊢
    refine ⟨rfl, sane, fun c listed pending g => ?_, fun row held g silenced => ?_⟩
    · rcases List.mem_append.mp listed with old | new
      · exact kept.pending c old pending g
      · rw [waits c (List.mem_singleton.mp new).symm] at pending
        cases pending
    · obtain ⟨u, listed, due⟩ := kept.due row held g silenced
      exact ⟨u, List.mem_append_left _ listed, due⟩
  cases act with
  | load =>
    have still : h.step .load = h := by simp only [Host.step, Host.load, kept.up]
    rw [still]
    exact kept
  | enter ev source now => exact added (fun c same => by cases same; rfl) (kept.sane.step (.enter ev source now))
  | look => exact added (fun c same => by cases same) (kept.sane.step .look)
  | write ev now => cases meets
  | turn i =>
    rcases turn_cases h i with same | ⟨t, turned⟩
    · rw [same]
      exact kept
    · cases sets : t.sets with
      | none => exact kept.still turned meets sets
      | some pair => exact kept.sets turned sets

end Run

/-- Once every call and look has ended, nothing that a silenced person said in a span of
theirs is held, if each purge finds what it is for. -/
theorem quieted_run [NostrEvents] [Devices] [Wraps] {h : Host} {acts : List Host.Act} (up : h.starting = .up)
    (idle : h.tasks = []) (clean : h.shared.Quieted) (met : Met Host.sweeps Host.step h acts)
    (ended : ∀ t ∈ (run Host.step h acts).tasks, t.isEnded = true) : (run Host.step h acts).shared.Quieted := by
  have initial : Kept h := by
    refine ⟨up, ⟨?_, ?_⟩, ?_, fun row held g silenced => ?_⟩
    · intro i j t u _ here
      rw [idle] at here
      cases here
    · intro c listed
      rw [idle] at listed
      cases listed
    · intro c listed
      rw [idle] at listed
      cases listed
    · rw [clean row held g] at silenced
      cases silenced
  have kept := run_invariant (fun _ act meets (inv : Kept _) => inv.step act meets) met initial
  intro row held g
  by_contra silenced
  rw [Bool.not_eq_false] at silenced
  obtain ⟨t, listed, due⟩ := kept.due row held g silenced
  have over_ := ended t listed
  rcases t with ⟨ev, source, now, phase⟩ | l
  · cases phase <;> simp [Task.isEnded, Phase.isEnded, Task.purges, Task.drops] at over_ due
  · cases l <;> simp [Task.isEnded, Look.isEnded, Task.purges, Task.drops] at over_ due

/-- The founder's node, carrying the club. -/
def clubHost : Host := .started youngStore [club] founder 600 ∅ []

/-- The guest's message and `ev` come at once; the message is judged first. -/
def spokenAndThen (ev : Event) : List Host.Act :=
  [.enter (hello 500) .push 600, .enter ev .push 600] ++ List.replicate 3 (.turn 0) ++ [.turn 1] ++
    List.replicate 4 (.turn 0) ++ List.replicate 12 (.turn 1)

private theorem clubHost_quieted : clubHost.shared.Quieted := by
  intro row held g
  have silent : (clubHost.shared.store.events.all fun row => !deletableKinds.contains row.kind) = true := by
    decide +kernel
  have other := List.all_eq_true.mp silent row held
  rw [Bool.not_eq_true'] at other
  rw [Inner.silences, other, Bool.false_and, Bool.false_and]

/-- The founder bans the guest from before they spoke. -/
theorem quieted_run_ban :
    (run Host.step clubHost (spokenAndThen ((Draft.banUser club guest).sign founder 450))).shared.Quieted :=
  quieted_run rfl rfl clubHost_quieted (by decide +kernel) (by decide +kernel)

/-- A mute from before the guest spoke, to an end that a column holds as a negative date. -/
def longMute : Event := (Draft.muteUser club guest (some ⟨2 ^ 63 + 5⟩)).sign founder 450

/-- The purge after it finds nothing to drop. -/
theorem longMute_leaves : clubHost.starting = .up ∧ clubHost.tasks = [] ∧ clubHost.shared.Quieted ∧
    (∀ t ∈ (run Host.step clubHost (spokenAndThen longMute)).tasks, t.isEnded = true) ∧
    ¬ (run Host.step clubHost (spokenAndThen longMute)).shared.Quieted := by
  refine ⟨rfl, rfl, clubHost_quieted, by decide +kernel, fun quieted => ?_⟩
  have silenced : (run Host.step clubHost (spokenAndThen longMute)).shared.silences club (hello 500) = true := by
    decide +kernel
  rw [quieted (hello 500) (by decide +kernel) club] at silenced
  cases silenced

end HitEnter.Node
