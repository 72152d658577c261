import HitEnter.Group.History

/-! Removal spans against membership. A removal, ban or leave opens a span that
the next put or join of the same person closes, and nothing else touches it. -/

namespace HitEnter.Group

open Wire

private theorem mem_cutShort {span : Silence} {spans : List Silence} {date : Timestamp}
    (removal : span.mute = false) : span ∈ cutShort date spans ↔ span ∈ spans := by
  simp only [cutShort, List.mem_map]
  constructor
  · rintro ⟨old, member, same⟩
    split at same
    · rename_i mute
      rw [← same] at removal
      simp [mute.1] at removal
    · exact same ▸ member
  · intro member
    exact ⟨span, member, by simp [removal]⟩

private theorem reopen_closed {span : Silence} {spans : List Silence} {date : Timestamp}
    (member : span ∈ reopen date spans) (removal : span.mute = false) : span.until_ ≠ none := by
  intro runs
  obtain ⟨old, _, same⟩ := List.mem_map.mp member
  split at same
  · rw [← same] at runs
    cases runs
  · rename_i closed
    subst same
    exact closed ⟨removal, runs⟩

section Run
variable [Nostr] {group : PublicKey} {events : List Event} {done : List Try} {s : GroupState} {p : PublicKey}

/-- An accepted removal, ban or leave of `p`. -/
def Try.exits (p : PublicKey) (step : Try) : Prop := step.turn p = some .exit

/-- An accepted put or join that makes `p` a member. -/
def Try.enters (p : PublicKey) (step : Try) : Prop := ∃ joined, step.turn p = some (.enter joined)

/-- `span` was opened by an exit of `p` that no entry has followed. -/
def OpenedBy (p : PublicKey) (done : List Try) (span : Silence) : Prop :=
  ∃ before opening after, done = before ++ opening :: after ∧ opening.exits p ∧
    opening.2.createdAt = span.since ∧ ∀ step ∈ after, ¬ step.enters p

/-- `span` was opened by an exit of `p` and ended by the next entry, dated `date`. -/
def ClosedBy (p : PublicKey) (done : List Try) (span : Silence) (date : Timestamp) : Prop :=
  ∃ before entry after, done = before ++ entry :: after ∧ OpenedBy p before span ∧
    entry.enters p ∧ entry.2.createdAt = date

private theorem OpenedBy.step {span : Silence} {step : Try} (opened : OpenedBy p done span)
    (other : ¬ step.enters p) : OpenedBy p (done ++ [step]) span := by
  obtain ⟨before, opening, after, rfl, exits, since, quiet⟩ := opened
  refine ⟨before, opening, after ++ [step], by simp, exits, since, fun later here => ?_⟩
  rcases List.mem_append.mp here with old | new
  · exact quiet later old
  · exact List.mem_singleton.mp new ▸ other

private theorem ClosedBy.step {span : Silence} {date : Timestamp} (closed : ClosedBy p done span date)
    (step : Try) : ClosedBy p (done ++ [step]) span date := by
  obtain ⟨before, entry, after, rfl, opened, enters, ends⟩ := closed
  exact ⟨before, entry, after ++ [step], by simp, opened, enters, ends⟩

/-- What a history says about the removal spans of `p`. -/
private structure Removals (p : PublicKey) (done : List Try) (r : Record) : Prop where
  out : ∀ span ∈ r.spans, span.mute = false → span.until_ = none → r.member = false
  opened : ∀ span ∈ r.spans, span.mute = false → span.until_ = none → OpenedBy p done span
  closed : ∀ span ∈ r.spans, span.mute = false → ∀ date, span.until_ = some date → ClosedBy p done span date
  silenced : ∀ before step after, done = before ++ step :: after → step.exits p →
    (∀ later ∈ after, ¬ later.exits p) → r.member = false →
      ∃ span ∈ r.spans, span.mute = false ∧ span.until_ = none ∧ span.since ≤ step.2.createdAt

/-- A try that is neither an exit nor an entry of `p`, over the same spans. -/
private theorem Removals.quiet {r next : Record} {step : Try} (so_far : Removals p done r)
    (exits : ¬ step.exits p) (enters : ¬ step.enters p) (member : next.member = r.member)
    (spans : ∀ span, span.mute = false → (span ∈ next.spans ↔ span ∈ r.spans)) :
    Removals p (done ++ [step]) next where
  out span here removal runs := by
    rw [member]
    exact so_far.out span ((spans span removal).mp here) removal runs
  opened span here removal runs := (so_far.opened span ((spans span removal).mp here) removal runs).step enters
  closed span here removal date ends :=
    (so_far.closed span ((spans span removal).mp here) removal date ends).step step
  silenced before last after split exit noLater gone := by
    rcases List.eq_nil_or_concat after with rfl | ⟨rest, final, rfl⟩
    · have same : done = before ∧ step = last := by
        simpa using split
      exact absurd (same.2 ▸ exit) exits
    · have same : done = before ++ last :: rest ∧ step = final := by
        have shape : done ++ [step] = (before ++ last :: rest) ++ [final] := by simpa using split
        exact ⟨List.append_inj_left' shape rfl, by simpa using List.append_inj_right' shape rfl⟩
      obtain ⟨span, here, removal, runs, since⟩ := so_far.silenced before last rest same.1 exit
        (fun later early => noLater later (by simp [early])) (member ▸ gone)
      exact ⟨span, (spans span removal).mpr here, removal, runs, since⟩

private theorem Removals.enter {r : Record} {step : Try} {joined : Bool} (so_far : Removals p done r)
    (entry : step.turn p = some (.enter joined)) :
    Removals p (done ++ [step]) (r.turn p step.2.createdAt (.enter joined)) where
  out span here removal runs := absurd runs (reopen_closed here removal)
  opened span here removal runs := absurd runs (reopen_closed here removal)
  closed span here removal date ends := by
    obtain ⟨old, member, same⟩ := List.mem_map.mp here
    split at same
    · rename_i runs
      subst same
      obtain rfl : step.2.createdAt = date := by simpa using ends
      exact ⟨done, step, [], rfl, so_far.opened old member runs.1 runs.2, ⟨joined, entry⟩, rfl⟩
    · subst same
      exact (so_far.closed old member removal date ends).step step
  silenced := by
    intro _ _ _ _ _ _ gone
    simp [Record.turn] at gone

private theorem Removals.exit {r : Record} {step : Try} (so_far : Removals p done r) (exit : step.exits p) :
    Removals p (done ++ [step]) (r.turn p step.2.createdAt .exit) where
  out _ _ _ _ := rfl
  opened span here removal runs := by
    have other : ¬ step.enters p := by
      rintro ⟨joined, enter⟩
      simp [Try.exits, enter] at exit
    rcases List.mem_append.mp here with old | new
    · exact (so_far.opened span old removal runs).step other
    · obtain rfl := List.mem_singleton.mp new
      exact ⟨done, step, [], rfl, exit, rfl, by simp⟩
  closed span here removal date ends := by
    rcases List.mem_append.mp here with old | new
    · exact (so_far.closed span old removal date ends).step step
    · obtain rfl := List.mem_singleton.mp new
      cases ends
  silenced before last after split _ noLater _ := by
    rcases List.eq_nil_or_concat after with rfl | ⟨rest, final, rfl⟩
    · obtain ⟨_, rfl⟩ : done = before ∧ step = last := by simpa using split
      exact ⟨_, List.mem_append_right _ List.mem_cons_self, rfl, rfl, le_rfl⟩
    · have shape : done ++ [step] = (before ++ last :: rest) ++ [final] := by simpa using split
      have same : step = final := by simpa using List.append_inj_right' shape rfl
      exact absurd (same ▸ exit) (noLater final (by simp))

private theorem removals (ran : Ran group events done s) (p : PublicKey) : Removals p done (s.record p) := by
  refine ran.record_induction ?_ ?_ ?_
  · intro first found
    have mutes : ∀ span ∈ (first.record p).spans, span.mute = true := by
      intro span here
      obtain ⟨u, _, _, rfl⟩ := (mem_start_spans found).mp here
      rfl
    refine ⟨?_, ?_, ?_, by simp⟩
    all_goals
      intro span here removal
      simp [mutes span here] at removal
  · intro done step r so_far idle
    refine so_far.quiet ?_ ?_ rfl fun _ _ => Iff.rfl
    · simp [Try.exits, idle]
    · simp [Try.enters, idle]
  · intro done s ev turn _ _ _ taken so_far
    cases turn with
    | enter joined => exact so_far.enter taken
    | exit => exact so_far.exit taken
    | mute until_ =>
      refine so_far.quiet (by simp [Try.exits, taken]) (by simp [Try.enters, taken]) ?_ ?_
      · cases until_ with
        | none => rfl
        | some u => simp only [Record.turn]; split <;> rfl
      · intro span removal
        cases until_ with
        | none => exact mem_cutShort removal
        | some u =>
          simp only [Record.turn]
          split
          · simp only [List.mem_append, mem_cutShort removal, List.mem_singleton, or_iff_left_iff_imp]
            rintro rfl
            cases removal
          · exact mem_cutShort removal

/-- In every state of the fold: whoever has an open removal span is out; whoever
went out and is not in again has one, open since their last exit at the latest;
and a closed one ended with the entry that next made the person a member. -/
theorem removal_spans (ran : Ran group events done s) (p : PublicKey) :
    (∀ span ∈ s.silences, span.who = p → span.mute = false → span.until_ = none → s.isMember p = false) ∧
      (∀ before step after, done = before ++ step :: after → step.exits p →
        (∀ later ∈ after, ¬ later.exits p) → s.isMember p = false → ∃ span ∈ s.silences,
          span.who = p ∧ span.mute = false ∧ span.until_ = none ∧ span.since ≤ step.2.createdAt) ∧
        ∀ span ∈ s.silences, span.who = p → span.mute = false → ∀ date, span.until_ = some date →
          ClosedBy p done span date := by
  have held := removals ran p
  have own : ∀ span, span ∈ (s.record p).spans ↔ span ∈ s.silences ∧ span.who = p := by
    simp [GroupState.record, GroupState.spansOf]
  refine ⟨fun span here mine => held.out span ((own span).mpr ⟨here, mine⟩), ?_,
    fun span here mine => held.closed span ((own span).mpr ⟨here, mine⟩)⟩
  intro before step after split exits noLater gone
  obtain ⟨span, here, removal, runs, since⟩ := held.silenced before step after split exits noLater gone
  exact ⟨span, ((own span).mp here).1, ((own span).mp here).2, removal, runs, since⟩

end Run

theorem removal_spans_returningClub : ∃ s, GroupState.fold club returningClub = some s ∧
    ∃ span ∈ s.silences, span.who = guest ∧ span.mute = false ∧
      ClosedBy guest (tries club returningClub) span 140 := by
  have facts : ((GroupState.fold club returningClub).any fun s => s.silences.any fun span =>
      span.who = guest && !span.mute && span.until_ == some 140) = true := by
    decide +kernel
  obtain ⟨s, found, listed⟩ := (Option.any_eq_true _ _).mp facts
  obtain ⟨span, here, checks⟩ := List.any_eq_true.mp listed
  simp only [Bool.and_eq_true, decide_eq_true_eq, Bool.not_eq_true', beq_iff_eq] at checks
  obtain ⟨⟨mine, removal⟩, ends⟩ := checks
  exact ⟨s, found, span, here, mine, removal,
    (removal_spans (fold_ran found) guest).2.2 span here mine removal 140 ends⟩

end HitEnter.Group
