import HitEnter.Node.TaskSpec

/-! What a turn leaves alone, and what holds of every host: the lock is held by nobody at
odds with another, and each call is where its event takes it. -/

namespace HitEnter.Node

open Wire HitEnter.Group Lib.Turns

namespace Host

section Turns
variable [NostrEvents] [Devices] [Wraps] {h : Host} {i : ℕ} {t : Task}

/-- The task at `i` took its step, and the others stand where they stood. -/
structure Turned (h : Host) (i : ℕ) (t : Task) : Prop where
  here : h.tasks[i]? = some t
  shared : (h.step (.turn i)).shared = (t.next h.shared).1
  starting : (h.step (.turn i)).starting = h.starting
  tasks : (h.step (.turn i)).tasks = h.tasks.set i (t.next h.shared).2

theorem turn_cases (h : Host) (i : ℕ) : h.step (.turn i) = h ∨ ∃ t, Turned h i t := by
  rcases System.turn_cases Node.tasks h.toWorld i with same | ⟨t, here, _, turned⟩
  · left
    rw [step, same]
  · refine .inr ⟨t, here, ?_, rfl, ?_⟩
    all_goals
      rw [step, turned]
      rfl

theorem Turned.mem (turned : Turned h i t) {u : Task} (listed : u ∈ (h.step (.turn i)).tasks) :
    u = (t.next h.shared).2 ∨ ∃ j, j ≠ i ∧ h.tasks[j]? = some u :=
  System.mem_set (turned.tasks ▸ listed)

theorem Turned.after (turned : Turned h i t) : (t.next h.shared).2 ∈ (h.step (.turn i)).tasks := by
  rw [turned.tasks]
  exact List.mem_set (List.getElem?_eq_some_iff.mp turned.here).1 _

theorem Turned.stays (turned : Turned h i t) {u : Task} (listed : u ∈ h.tasks) :
    u = t ∨ u ∈ (h.step (.turn i)).tasks := by
  obtain ⟨j, there⟩ := List.mem_iff_getElem?.mp listed
  by_cases same : i = j
  · subst same
    exact .inl (Option.some.inj (there.symm.trans turned.here))
  · right
    rw [turned.tasks]
    exact List.mem_of_getElem? (by rw [List.getElem?_set_ne same]; exact there)

/-- The lock is held by nobody at odds with another, and each call is where its event
takes it. -/
structure Sane (h : Host) : Prop where
  exclusive : Node.tasks.Exclusive h.tasks
  sound : ∀ c, .call c ∈ h.tasks → c.Sound

private theorem sane_take {task : Task} (sane : Sane h) (free : task.holds = none)
    (sound : ∀ c, task = .call c → c.Sound) : Sane (h.take task) := by
  unfold take
  split
  · exact sane
  · refine ⟨System.exclusive_append sane.exclusive free, fun c listed => ?_⟩
    rcases List.mem_append.mp listed with old | new
    · exact sane.sound c old
    · exact sound c (List.mem_singleton.mp new).symm

theorem Sane.step (sane : Sane h) (act : Act) : Sane (h.step act) := by
  cases act with
  | load =>
    have same : (h.step .load).tasks = h.tasks := by
      simp only [Host.step, load]
      split <;> rfl
    exact ⟨same ▸ sane.exclusive, fun c listed => sane.sound c (same ▸ listed)⟩
  | enter ev source now => exact sane_take sane rfl fun c same => by cases same; trivial
  | look => exact sane_take sane rfl fun c same => by cases same
  | write ev now => exact ⟨sane.exclusive, sane.sound⟩
  | turn i =>
    refine ⟨System.exclusive_turn sane.exclusive i, fun c listed => ?_⟩
    rcases turn_cases h i with same | ⟨t, turned⟩
    · exact sane.sound c (same ▸ listed)
    · rcases turned.mem listed with after | ⟨j, _, there⟩
      · cases t with
        | call c' =>
          simp only [Task.next, Task.call.injEq] at after
          rw [after]
          exact Call.sound_next (sane.sound c' (List.mem_of_getElem? turned.here))
        | look l => cases after
      · exact sane.sound c (List.mem_of_getElem? there)

theorem Turned.sets_writes (turned : Turned h i t) (sane : Sane h) {g : PublicKey} {state : Option GroupState}
    (sets : t.sets = some (g, state)) : t.holds = some .write :=
  Task.holds_of_sets (fun c same => sane.sound c (same ▸ List.mem_of_getElem? turned.here)) sets

/-- While a task holds the lock for writing the others hold nothing. -/
theorem Turned.alone (turned : Turned h i t) (sane : Sane h) (writes : t.holds = some .write) {u : Task} {j : ℕ}
    (apart : j ≠ i) (there : h.tasks[j]? = some u) : u.holds = none :=
  System.Exclusive.alone sane.exclusive apart turned.here writes there

/-- The event an act brings into the store or hands over. -/
def Act.brings : Act → Option Event
  | .enter ev _ _ => some ev
  | .write ev _ => some ev
  | _ => none

/-- All that is held or under way, but for wraps and bindings, is among `known`, and what
is about to be dropped is a message or reaction among it. -/
structure Named (known : List Event) (h : Host) : Prop where
  rows : ∀ row ∈ h.shared.store.events, row.kind ≠ deviceBinding ∧ row.kind ≠ giftWrap → row ∈ known
  calls : ∀ c, .call c ∈ h.tasks → c.event ∈ known
  drops : ∀ t ∈ h.tasks, ∀ id ∈ t.drops, ∃ row ∈ known, row.id = id ∧ deletableKinds.contains row.kind = true

variable {known : List Event}

omit [Devices] [Wraps] in
private theorem Named.take (named : Named known h) {task : Task} (idle : task.drops = [])
    (calls : ∀ c, task = .call c → c.event ∈ known) : Named known (h.take task) := by
  unfold Host.take
  split
  · exact named
  · refine ⟨named.rows, fun c listed => ?_, fun t listed id drops => ?_⟩
    · rcases List.mem_append.mp listed with old | new
      · exact named.calls c old
      · exact calls c (List.mem_singleton.mp new).symm
    · rcases List.mem_append.mp listed with old | new
      · exact named.drops t old id drops
      · rw [List.mem_singleton.mp new, idle] at drops
        cases drops

theorem Named.step (named : Named known h) {act : Act} (brings : ∀ ev, act.brings = some ev → ev ∈ known) :
    Named known (h.step act) := by
  cases act with
  | load =>
    have same : (h.step .load).tasks = h.tasks ∧ (h.step .load).shared.store = h.shared.store := by
      simp only [Host.step, load]
      split <;> exact ⟨rfl, rfl⟩
    exact ⟨same.2 ▸ named.rows, same.1 ▸ named.calls, same.1 ▸ named.drops⟩
  | enter ev source now => exact named.take rfl fun c same => by cases same; exact brings ev rfl
  | look => exact named.take rfl fun c same => by cases same
  | write ev now =>
    refine ⟨fun row held aside => ?_, named.calls, named.drops⟩
    have inserted : row ∈ (h.shared.store.insert ev).1.events := held
    rw [Store.mem_insert] at inserted
    split at inserted
    · rcases inserted with rfl | ⟨before, _⟩
      · exact brings row rfl
      · exact named.rows row before aside
    · exact named.rows row inserted aside
  | turn i =>
    rcases turn_cases h i with same | ⟨t, turned⟩
    · rw [same]
      exact named
    · have member := List.mem_of_getElem? turned.here
      refine ⟨fun row held aside => ?_, fun c listed => ?_, fun u listed id drops => ?_⟩
      · rw [turned.shared] at held
        rcases Task.mem_next aside held with before | stored
        · exact named.rows row before aside
        · rcases t with c | l
          · have own : c.event = row := by
              simp only [Task.stores] at stored
              split at stored
              · exact Option.some.inj stored
              · cases stored
            exact own ▸ named.calls c member
          · cases stored
      · rcases turned.mem listed with after | ⟨j, _, there⟩
        · cases t with
          | call c' =>
            simp only [Task.next, Task.call.injEq] at after
            rw [after]
            exact named.calls c' member
          | look l => cases after
        · exact named.calls c (List.mem_of_getElem? there)
      · rcases turned.mem listed with rfl | ⟨j, _, there⟩
        · obtain ⟨row, held, same, said⟩ := Task.drops_next drops
          have kinds : (deletableKinds.all fun kind => kind != deviceBinding && kind != giftWrap) = true := by decide
          have aside := List.all_eq_true.mp kinds row.kind (List.contains_iff_mem.mp said)
          exact ⟨row, named.rows row held (by simpa using aside), same, said⟩
        · exact named.drops u (List.mem_of_getElem? there) id drops

omit [Devices] [Wraps] in
/-- Where no two events have one id, what is neither wrap nor binding nor may be withdrawn
is not about to be dropped. -/
theorem Named.spared (named : Named known h) (distinct : (known.map Event.id).Nodup) (listed : t ∈ h.tasks)
    {row : Event} (held : row ∈ h.shared.store.events) (aside : row.kind ≠ deviceBinding ∧ row.kind ≠ giftWrap)
    (firm : deletableKinds.contains row.kind = false) : row.id ∉ t.drops := by
  intro dropped
  obtain ⟨other, known', same, said⟩ := named.drops t listed row.id dropped
  rw [List.inj_on_of_nodup_map distinct known' (named.rows row held aside) same, firm] at said
  cases said

theorem step_up (up : h.starting = .up) (act : Act) : (h.step act).starting = .up := by
  cases act with
  | load =>
    simp only [step, load, up]
  | enter ev source now =>
    simp only [step, take]
    split <;> exact up
  | look =>
    simp only [step, take]
    split <;> exact up
  | turn i => exact up
  | write ev now => exact up

end Turns

end Host

end HitEnter.Node
