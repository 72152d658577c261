import HitEnter.Group.Removals

/-! The two records of a mute. A mute is kept as an end, which silences voice, and
as a span, which silences text; the two part ways where a turn writes one of
them and not the other. -/

namespace HitEnter.Group

open Wire Lib.Checks

/-- A mute among `spans` covers `t`. -/
def Muted (spans : List Silence) (t : Timestamp) : Prop :=
  ∃ span ∈ spans, span.mute = true ∧ span.covers t = true

/-- Every mute among `spans` has an end, and began by any of the times `Due`. -/
private def Begun (Due : Timestamp → Prop) (spans : List Silence) : Prop :=
  ∀ span ∈ spans, span.mute = true → span.until_ ≠ none ∧ ∀ t, Due t → span.since ≤ t

private theorem covers_iff {span : Silence} {t : Timestamp} :
    span.covers t = true ↔ span.since ≤ t ∧ ∀ u, span.until_ = some u → t < u := by
  cases ends : span.until_ <;> simp [Silence.covers, ends]

private theorem muted_reopen {spans : List Silence} {date t : Timestamp} :
    Muted (reopen date spans) t ↔ Muted spans t := by
  simp only [Muted, reopen, List.mem_map]
  constructor
  · rintro ⟨_, ⟨old, member, rfl⟩, mute, covers⟩
    split at mute
    · rename_i removal
      simp [removal.1] at mute
    · rename_i kept
      rw [if_neg kept] at covers
      exact ⟨old, member, mute, covers⟩
  · rintro ⟨span, member, mute, covers⟩
    exact ⟨span, ⟨span, member, by simp [mute]⟩, mute, covers⟩

/-- Once the running mutes are cut short, none reaches beyond. -/
private theorem not_muted_cutShort {Due : Timestamp → Prop} {spans : List Silence} {date t : Timestamp}
    (begun : Begun Due spans) (due : Due date) (later : date ≤ t) : ¬ Muted (cutShort date spans) t := by
  rintro ⟨span, member, mute, covers⟩
  obtain ⟨old, here, rfl⟩ := List.mem_map.mp member
  split at covers
  · exact absurd ((covers_iff.mp covers).2 date rfl) (not_lt_of_ge later)
  · rename_i kept
    rw [if_neg kept] at mute
    refine kept ⟨mute, covers_iff.mpr ⟨(begun old here mute).2 date due, fun u ends => ?_⟩⟩
    exact lt_of_le_of_lt later ((covers_iff.mp covers).2 u ends)

private theorem begun_cutShort {Due : Timestamp → Prop} {spans : List Silence} {date : Timestamp}
    (begun : Begun Due spans) : Begun Due (cutShort date spans) := by
  intro span member mute
  obtain ⟨old, here, rfl⟩ := List.mem_map.mp member
  split
  · rename_i running
    exact ⟨by simp, (begun old here running.1).2⟩
  · rename_i kept
    rw [if_neg kept] at mute
    exact begun old here mute

private theorem begun_reopen {Due : Timestamp → Prop} {spans : List Silence} {date : Timestamp}
    (begun : Begun Due spans) : Begun Due (reopen date spans) := by
  intro span member mute
  obtain ⟨old, here, rfl⟩ := List.mem_map.mp member
  split at mute
  · rename_i removal
    simp [removal.1] at mute
  · rename_i kept
    rw [if_neg kept]
    exact begun old here mute

private theorem muted_append {spans : List Silence} {new : Silence} {t : Timestamp} :
    Muted (spans ++ [new]) t ↔ Muted spans t ∨ new.mute = true ∧ new.covers t = true := by
  simp [Muted, or_and_right, exists_or]

/-- A mute span of `p` covers `t`: what refuses their text. -/
def GroupState.textMuted (s : GroupState) (p : PublicKey) (t : Timestamp) : Prop :=
  ∃ span ∈ s.silences, span.who = p ∧ span.mute = true ∧ span.covers t = true

theorem textMuted_iff {s : GroupState} {p : PublicKey} {t : Timestamp} : s.textMuted p t ↔ Muted (s.record p).spans t := by
  simp [GroupState.textMuted, Muted, GroupState.record, GroupState.spansOf, and_assoc]

theorem mutedUntil_isSome {s : GroupState} {p : PublicKey} {t : Timestamp} :
    (s.mutedUntil p t).isSome = true ↔ ∃ u, (s.record p).muted = some u ∧ t < u := by
  simp [GroupState.mutedUntil, GroupState.record, Option.any_eq_true]

/-- Not before the cutoff, nor before anything tried. -/
private def Due (cutoff : Timestamp) (done : List Try) (t : Timestamp) : Prop :=
  cutoff ≤ t ∧ ∀ step ∈ done, step.2.createdAt ≤ t

private theorem Due.before {cutoff t : Timestamp} {done : List Try} {step : Try} (due : Due cutoff (done ++ [step]) t) :
    Due cutoff done t ∧ step.2.createdAt ≤ t :=
  ⟨⟨due.1, fun earlier here => due.2 earlier (List.mem_append_left _ here)⟩, due.2 step (by simp)⟩

private theorem Begun.grows {cutoff : Timestamp} {done : List Try} {spans : List Silence}
    (begun : Begun (Due cutoff done) spans) (step : Try) : Begun (Due cutoff (done ++ [step])) spans :=
  fun span here mute => ⟨(begun span here mute).1, fun t due => (begun span here mute).2 t due.before.1⟩

section Run
variable [Nostr] {group : PublicKey} {events : List Event} {done : List Try} {s : GroupState} {p : PublicKey}

/-- The last try that did anything to `p`. -/
def lastTurn (p : PublicKey) (done : List Try) : Option Try := latest (fun step => (step.turn p).isSome) done

/-- The turns that leave `p` muted by one record at `t` and not by the other: a
mute whose end is not after its own date, while one runs until after `t`, and an
entry while a mute from before covers `t`. -/
def Try.Drifts (p : PublicKey) (t : Timestamp) (step : Try) : Prop :=
  (∃ u, step.turn p = some (.mute (some u)) ∧ u ≤ step.2.createdAt ∧ (step.1.mutedUntil p t).isSome = true) ∨
    step.enters p ∧ step.1.textMuted p t

/-- What a history says about the mutes of `p`. -/
private structure Muting (cutoff : Timestamp) (p : PublicKey) (done : List Try) (r : Record) : Prop where
  begun : Begun (Due cutoff done) r.spans
  stranger : r.member = false → r.muted = none
  agree : r.member = true → ∀ t, Due cutoff done t →
    (((∃ u, r.muted = some u ∧ t < u) ↔ Muted r.spans t) ↔
      ∀ step, lastTurn p done = some step → ¬ step.Drifts p t)

private theorem Muting.idle {cutoff : Timestamp} {r : Record} {step : Try} (so_far : Muting cutoff p done r)
    (idle : step.turn p = none) : Muting cutoff p (done ++ [step]) r where
  begun := so_far.begun.grows step
  stranger := so_far.stranger
  agree member t due := by
    rw [lastTurn, latest_snoc, idle]
    exact so_far.agree member t due.before.1

/-- After a turn it is the last one, and the two records agree unless it drifts. -/
private theorem agree_turned {step : Try} {turn : Turn} {both : Prop} {t : Timestamp}
    (taken : step.turn p = some turn) (agree : both ↔ ¬ step.Drifts p t) :
    both ↔ ∀ last, lastTurn p (done ++ [step]) = some last → ¬ last.Drifts p t := by
  rw [lastTurn, latest_snoc, taken, agree]
  simp

private theorem Muting.enter {cutoff : Timestamp} {ev : Event} {joined : Bool}
    (so_far : Muting cutoff p done (s.record p)) (taken : Try.turn p (s, ev) = some (.enter joined)) :
    Muting cutoff p (done ++ [(s, ev)]) ((s.record p).turn p ev.createdAt (.enter joined)) where
  begun := begun_reopen (so_far.begun.grows _)
  stranger gone := by simp [Record.turn] at gone
  agree _ t _ := by
    refine agree_turned taken ?_
    have unmuted : (s.record p).muted = none := so_far.stranger (stranger_of_turn taken)
    simp [Record.turn, unmuted, muted_reopen, Try.Drifts, taken, Try.enters, textMuted_iff]

private theorem Muting.exit {cutoff : Timestamp} {ev : Event}
    (so_far : Muting cutoff p done (s.record p)) :
    Muting cutoff p (done ++ [(s, ev)]) ((s.record p).turn p ev.createdAt .exit) where
  begun span here mute := by
    rcases List.mem_append.mp here with old | new
    · exact so_far.begun.grows (s, ev) span old mute
    · obtain rfl := List.mem_singleton.mp new
      cases mute
  stranger _ := by
    cases member : (s.record p).member with
    | true => simp [Record.turn, member]
    | false => simpa [Record.turn, member] using so_far.stranger member
  agree member := by simp [Record.turn] at member

private theorem Muting.mute {cutoff : Timestamp} {ev : Event} {until_ : Option Timestamp}
    (so_far : Muting cutoff p done (s.record p)) (due : Due cutoff done ev.createdAt)
    (taken : Try.turn p (s, ev) = some (.mute until_)) :
    Muting cutoff p (done ++ [(s, ev)]) ((s.record p).turn p ev.createdAt (.mute until_)) := by
  have cut : Begun _ (cutShort ev.createdAt (s.record p).spans) := begun_cutShort (so_far.begun.grows (s, ev))
  have ended : ∀ t, ev.createdAt ≤ t → ¬ Muted (cutShort ev.createdAt (s.record p).spans) t :=
    fun t later => not_muted_cutShort so_far.begun due later
  have member : (s.record p).member = true := member_of_turn taken
  cases until_ with
  | none =>
    refine ⟨cut, fun gone => ?_, fun _ t now => agree_turned taken ?_⟩
    · simp [Record.turn, member] at gone
    · simp [Record.turn, ended t now.before.2, Try.Drifts, taken, Try.enters]
  | some u =>
    by_cases later : ev.createdAt < u
    · simp only [Record.turn, later, ↓reduceIte]
      refine ⟨?_, fun gone => ?_, fun _ t now => agree_turned taken ?_⟩
      · intro span here mute
        rcases List.mem_append.mp here with old | new
        · exact cut span old mute
        · obtain rfl := List.mem_singleton.mp new
          exact ⟨by simp, fun t now => now.before.2⟩
      · simp [member] at gone
      · simp [muted_append, ended t now.before.2, covers_iff, now.before.2, Try.Drifts, taken, Try.enters, later]
    · simp only [Record.turn, later, ↓reduceIte]
      refine ⟨cut, fun gone => ?_, fun _ t now => agree_turned taken ?_⟩
      · simp [member] at gone
      · have notLater : u ≤ ev.createdAt := le_of_not_gt later
        simp [ended t now.before.2, Try.Drifts, taken, Try.enters, notLater, mutedUntil_isSome]

private theorem muting {first : GroupState} (ran : Ran group events done s)
    (begun : GroupState.start group events = some first)
    (carried : ∀ q ∈ first.mutes, first.isMember q = true) (p : PublicKey) :
    Muting first.cutoff p done (s.record p) := by
  refine ran.record_induction ?_ (fun done step r so_far idle => so_far.idle idle) ?_
  · intro first' found
    obtain rfl : first = first' := Option.some.inj (begun.symm.trans found)
    refine ⟨?_, ?_, ?_⟩
    · intro span here _
      obtain ⟨u, _, _, rfl⟩ := (mem_start_spans found).mp here
      exact ⟨by simp, fun t due => due.1⟩
    · intro gone
      refine Option.eq_none_iff_forall_not_mem.mpr fun u muted => ?_
      have named : p ∈ first.mutes := Std.ExtTreeMap.mem_iff_isSome_getElem?.mpr (Option.isSome_of_mem muted)
      exact absurd (carried p named) (Bool.eq_false_iff.mp gone)
    · intro _ t due
      simp only [lastTurn, latest, List.filter_nil, List.getLast?_nil, reduceCtorEq, false_implies, implies_true,
        iff_true, Muted, mem_start_spans found]
      constructor
      · rintro ⟨u, muted, runs⟩
        exact ⟨_, ⟨u, muted, lt_of_le_of_lt due.1 runs, rfl⟩, rfl, covers_iff.mpr ⟨due.1, by simpa using runs⟩⟩
      · rintro ⟨_, ⟨u, muted, _, rfl⟩, _, covers⟩
        exact ⟨u, muted, (covers_iff.mp covers).2 u rfl⟩
  · intro done s ev turn ran due since taken so_far
    cases turn with
    | enter joined => exact so_far.enter taken
    | exit => exact so_far.exit
    | mute until_ => exact so_far.mute ⟨ran.cutoff begun ▸ since, due⟩ taken

/-- From the last live action on, voice and text silence the same members,
except where the last thing that happened to one was a turn that drifts. -/
theorem mutes_agree_iff {t : Timestamp} (found : GroupState.fold group events = some s)
    (carried : ∀ w, winners group events = some w → ∀ q ∈ w.mutes, q ∈ w.members)
    (member : s.isMember p = true) (since : s.cutoff ≤ t)
    (last : ∀ ev ∈ GroupState.live group events s.cutoff, ev.createdAt ≤ t) :
    ((s.mutedUntil p t).isSome = true ↔ s.textMuted p t) ↔
      ∀ step, lastTurn p (tries group events) = some step → ¬ step.Drifts p t := by
  have ran := fold_ran found
  obtain ⟨first, begun, _⟩ := ran.reached.kept
  have onlyMembers : ∀ q ∈ first.mutes, first.isMember q = true := by
    obtain ⟨w, invites, won, rfl⟩ := start_winners begun
    intro q muted
    have here : (w.state group (scan group events).creators).isMember q = true :=
      w.isMember_state.mpr (.inr (carried w won q muted))
    exact here
  rw [mutedUntil_isSome, textMuted_iff]
  refine (muting ran begun onlyMembers p).agree member t ⟨ran.cutoff begun ▸ since, fun step here => ?_⟩
  exact last step.2 (ran.live step here)

end Run

/-- At 200 the returned guest may not write and is heard all the same. -/
private theorem returningClub_facts : ∃ s, GroupState.fold club returningClub = some s ∧
    s.isMember guest = true ∧ s.cutoff ≤ 200 ∧
      (∀ ev ∈ GroupState.live club returningClub s.cutoff, ev.createdAt ≤ 200) ∧
        (∀ w, winners club returningClub = some w → ∀ q ∈ w.mutes, q ∈ w.members) ∧
          ¬ ((s.mutedUntil guest 200).isSome = true ↔ s.textMuted guest 200) := by
  have facts : ((GroupState.fold club returningClub).any fun s =>
      s.isMember guest && decide (s.cutoff ≤ 200) &&
        ((GroupState.live club returningClub s.cutoff).all fun ev => ev.createdAt ≤ 200) &&
          !(s.mutedUntil guest 200).isSome &&
            s.silences.any fun span => span.who = guest && span.mute && span.covers 200) = true := by
    decide +kernel
  have unmuted : ((winners club returningClub).all fun w => w.mutes.isEmpty) = true := by decide +kernel
  obtain ⟨s, found, checks⟩ := (Option.any_eq_true _ _).mp facts
  simp only [Bool.and_eq_true, decide_eq_true_eq, Bool.not_eq_true', List.any_eq_true, List.all_eq_true] at checks
  obtain ⟨⟨⟨⟨member, since⟩, last⟩, heard⟩, span, here, ⟨mine, mute⟩, covers⟩ := checks
  refine ⟨s, found, member, since, last, fun w won q muted => ?_, fun agree => ?_⟩
  · have none := Std.ExtTreeMap.isEmpty_iff.mp (Option.all_eq_true _ _ |>.mp unmuted w won)
    simp [none] at muted
  · have silenced : s.textMuted guest 200 := ⟨span, here, mine, mute, covers⟩
    rw [agree.mpr silenced] at heard
    cases heard

theorem mutes_agree_iff_returningClub : ∃ step : Try,
    lastTurn guest (tries club returningClub) = some step ∧ step.Drifts guest 200 := by
  obtain ⟨s, found, member, since, last, carried, differ⟩ := returningClub_facts
  have drifts := (not_congr (mutes_agree_iff found carried member since last)).mp differ
  simpa using drifts

theorem returningClub_disagrees : ¬ ∀ (group : PublicKey) (events : List Event) (s : GroupState),
    GroupState.fold group events = some s →
      (∀ w, winners group events = some w → ∀ q ∈ w.mutes, q ∈ w.members) →
        ∀ p t, s.isMember p = true → s.cutoff ≤ t →
          (∀ ev ∈ GroupState.live group events s.cutoff, ev.createdAt ≤ t) →
            ((s.mutedUntil p t).isSome = true ↔ s.textMuted p t) := by
  intro agree
  obtain ⟨s, found, member, since, last, carried, differ⟩ := returningClub_facts
  exact differ (agree club returningClub s found carried guest 200 member since last)

end HitEnter.Group
