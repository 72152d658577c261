import HitEnter.Calls.VoiceSpec

/-! Whether at most one call runs, over any run of the tasks under way. -/

namespace HitEnter.Calls

open Wire Lib.Runs

namespace Voice

/-- Do the loops of call `c` run? -/
def runs (v : Voice) (c : ℕ) : Bool := (v.calls[c]?).any (·.loops)

/-- A call is started only where none is the current one. -/
def alone (v : Voice) (act : Act) : Bool := !v.starts act || v.current.isNone

end Voice

/-- The loops of two calls never run at once, and a call whose loops run is the current one. -/
def AtMostOne (v : Voice) : Prop :=
  (∀ c d, v.runs c = true → v.runs d = true → c = d) ∧ ∀ c, v.runs c = true → v.current = some c

/-- The current call is one whose loops run. -/
def CurrentRuns (v : Voice) : Prop := ∀ c, v.current = some c → v.runs c = true

section Runs
variable {v after : Voice} {act : Act} {c i : ℕ} {f : Call → Call}

theorem Voice.runs_congr (same : after.calls = v.calls) : after.runs c = v.runs c := by
  rw [Voice.runs, same, Voice.runs]

theorem Voice.runs_modify (keeps : ∀ call, (f call).loops = call.loops) (calls : after.calls = v.calls.modify i f) :
    after.runs c = v.runs c := by
  unfold Voice.runs
  rw [calls, List.getElem?_modify]
  by_cases same : i = c
  · cases v.calls[c]? <;> simp [same, keeps]
  · cases v.calls[c]? <;> simp [same]

theorem Voice.runs_started {new : Call} (runs : new.loops = true) (calls : after.calls = v.calls ++ [new]) :
    after.runs c = true ↔ c = v.calls.length ∨ v.runs c = true := by
  unfold Voice.runs
  rw [calls]
  constructor
  · intro runs
    obtain ⟨call, found, loops⟩ := (Option.any_eq_true ..).mp runs
    rcases at_snoc found with ⟨last, _⟩ | old
    · exact .inl last
    · exact .inr ((Option.any_eq_true ..).mpr ⟨call, old, loops⟩)
  · rintro (rfl | old)
    · simp [runs]
    · obtain ⟨call, found, loops⟩ := (Option.any_eq_true ..).mp old
      have before : c < v.calls.length := (List.getElem?_eq_some_iff.mp found).1
      rw [List.getElem?_append_left before]
      exact old

theorem Voice.runs_ended (calls : after.calls = v.calls.modify i .stop) :
    after.runs c = true ↔ c ≠ i ∧ v.runs c = true := by
  unfold Voice.runs
  rw [calls, List.getElem?_modify]
  by_cases same : i = c
  · subst same
    cases v.calls[i]? <;> simp [Call.stop]
  · cases v.calls[c]? <;> simp [same, Ne.symm same]

theorem readerEnds_loops {call : Call} : (call.readerEnds i).loops = call.loops := by
  rcases @readerEnds_eq call i with same | ⟨reader, _, _, same⟩ <;> rw [same]

/-- Whether a step starts a call, or ends the current one, is all that bears on which run. -/
theorem runs_cases (change : Change v act after) :
    (after.current = v.current ∧ ∀ c, after.runs c = v.runs c) ∨
      (v.starts act = true ∧ after.current = some v.calls.length ∧
        ∀ c, after.runs c = true ↔ c = v.calls.length ∨ v.runs c = true) ∨
      ∃ d, v.current = some d ∧ after.current = none ∧ ∀ c, after.runs c = true ↔ c ≠ d ∧ v.runs c = true := by
  cases change with
  | same calls current _ => exact .inl ⟨current, fun c => Voice.runs_congr calls⟩
  | started starts room ring _ _ calls current _ =>
    exact .inr (.inl ⟨starts, current, fun c => Voice.runs_started rfl calls⟩)
  | ended d was calls current _ => exact .inr (.inr ⟨d, was, current, fun c => Voice.runs_ended calls⟩)
  | added d person _ calls current _ =>
    exact .inl ⟨current, fun c => Voice.runs_modify (f := .addPeer person v.conns) (fun _ => rfl) calls⟩
  | marked d calls current _ => exact .inl ⟨current, fun c => Voice.runs_modify (f := .markAnswered) (fun _ => rfl) calls⟩
  | retained d room _ calls current _ =>
    exact .inl ⟨current, fun c => Voice.runs_modify (f := .retain room) (fun _ => rfl) calls⟩
  | readerEnded d i _ calls current _ =>
    exact .inl ⟨current, fun c => Voice.runs_modify (fun _ => readerEnds_loops) calls⟩

/-- The call a step starts is not there before it. -/
theorem Voice.not_runs_length : v.runs v.calls.length = false := by
  simp [Voice.runs]

theorem currentRuns_step (runs : CurrentRuns v) : CurrentRuns (v.step act) := by
  intro c current
  rcases runs_cases (step_change v act) with ⟨same, still⟩ | ⟨_, new, now⟩ | ⟨d, _, none, _⟩
  · rw [still]
    exact runs c (same ▸ current)
  · rw [new, Option.some.injEq] at current
    exact (now c).mpr (.inl current.symm)
  · rw [none] at current
    cases current

/-- A step that starts a call makes it the current one. -/
theorem Voice.starts_current (starts : v.starts act = true) : (v.step act).current = some v.calls.length := by
  unfold Voice.starts at starts
  split at starts
  · rename_i i
    simp only [Voice.step]
    split at starts
    all_goals first | (rename_i entry; rw [entry]; rfl) | cases starts
  · cases starts

/-- One step keeps the calls to one just where it does not start one beside the current one. -/
theorem atMostOne_step (runs : CurrentRuns v) (one : AtMostOne v) : AtMostOne (v.step act) ↔ v.alone act = true := by
  obtain ⟨apart, current⟩ := one
  rcases runs_cases (step_change v act) with ⟨same, still⟩ | ⟨starts, new, now⟩ | ⟨d, was, none, now⟩
  · have other : v.starts act = false := by
      rw [Bool.eq_false_iff]
      intro starts
      have runs := runs _ (same ▸ Voice.starts_current starts)
      rw [Voice.not_runs_length] at runs
      cases runs
    refine iff_of_true ⟨fun c d one two => ?_, fun c one => ?_⟩ (by simp [Voice.alone, other])
    · exact apart c d (still c ▸ one) (still d ▸ two)
    · rw [same]
      exact current c (still c ▸ one)
  · rw [Voice.alone, starts, Bool.not_true, Bool.false_or, Option.isNone_iff_eq_none]
    have started := (now v.calls.length).mpr (.inl rfl)
    constructor
    · intro one
      -- Had there been a current call, its loops would still run beside the new one's.
      cases was : v.current with
      | none => rfl
      | some c =>
        have old := runs c was
        have same := one.1 c v.calls.length ((now c).mpr (.inr old)) started
        rw [same, Voice.not_runs_length] at old
        cases old
    · intro none
      have only : ∀ c, (v.step act).runs c = true → c = v.calls.length := fun c runs => by
        rcases (now c).mp runs with last | old
        · exact last
        · have found := current c old
          rw [none] at found
          cases found
      exact ⟨fun c d one two => (only c one).trans (only d two).symm, fun c one => by rw [new, only c one]⟩
  · have other : v.starts act = false := by
      rw [Bool.eq_false_iff]
      intro starts
      have started := Voice.starts_current starts
      rw [none] at started
      cases started
    have silent : ∀ c, (v.step act).runs c = false := fun c => by
      rw [Bool.eq_false_iff]
      intro runs
      obtain ⟨apart, old⟩ := (now c).mp runs
      have found := current c old
      rw [was, Option.some.injEq] at found
      exact apart found.symm
    refine iff_of_true ⟨fun c d one _ => ?_, fun c one => ?_⟩ (by simp [Voice.alone, other])
    · rw [silent c] at one
      cases one
    · rw [silent c] at one
      cases one

end Runs

/-- Two joins find no call, wait for what they announce, and both start one. -/
def twoJoins : List Act := [.join ⟨0⟩ "lobby" true 0, .join ⟨1⟩ "stage" true 0, .entry 0 true, .entry 1 true]

end HitEnter.Calls
