import HitEnter.Group.EditSpec
import HitEnter.Group.FoldSpec

/-! What a refused action leaves behind. Every action checks before it writes,
except that a mute ends the running spans of its target before it looks at its
own end. -/

namespace HitEnter.Group.GroupState

open Wire

/-- `span` is a mute of `target` that is running at `date`. -/
def Running (target : PublicKey) (date : Timestamp) (span : Silence) : Prop :=
  span.who = target ∧ span.mute = true ∧ span.covers date = true

/-- Ending the running mutes changes nothing exactly when there are none. -/
theorem endMutes_eq_iff {s : GroupState} {target : PublicKey} {date : Timestamp} :
    s.endMutes target date = s ↔ ∀ span ∈ s.silences, ¬ Running target date span := by
  constructor
  · intro same span member running
    have spans : (s.endMutes target date).silences = s.silences := congrArg silences same
    have kept := List.map_inj_left.mp (spans.trans (List.map_id _).symm) span member
    obtain ⟨own, mute, covers⟩ := running
    rw [if_pos ⟨own, mute, covers⟩] at kept
    have ended : span.until_ = some date := (congrArg Silence.until_ kept).symm
    simp [Silence.covers, ended] at covers
  · intro none
    have spans : (s.endMutes target date).silences = s.silences := by
      refine (List.map_congr_left fun span member => ?_).trans (List.map_id _)
      exact if_neg (none span member)
    exact congrArg (fun spans => { s with silences := spans }) spans

/-- The one refusal that changes the state: a mute with good standing whose end
is not one, of someone a mute is running for. -/
def CutsShort [Nostr] (s : GroupState) (ev : Event) : Prop :=
  ∃ group target until_, parseAction ev = some (group, .mute target until_) ∧
    RefusedLate s ev.pubkey ev.createdAt target until_ ∧
      ∃ span ∈ s.silences, Running target ev.createdAt span

/-- A refused action changes nothing, in any field, unless it is a late refusal of
a mute that cuts a running one short. -/
theorem refused_unchanged_iff [Nostr] (s : GroupState) (ev : Event) :
    (∀ refusal, (s.apply ev).2 = .error refusal → (s.apply ev).1 = s) ↔ ¬ CutsShort s ev := by
  constructor
  · rintro unchanged ⟨group, target, until_, read, late, span, member, running⟩
    obtain ⟨refusal, refused⟩ := applyMute_refusedLate late
    have outcome : s.apply ev = (s.endMutes target ev.createdAt, .error refusal) := by
      simpa only [apply, read, act] using refused
    have same := unchanged refusal (congrArg Prod.snd outcome)
    rw [outcome] at same
    exact endMutes_eq_iff.mp same span member running
  · intro safe refusal refused
    rcases apply_error (Prod.ext rfl refused) with same | ⟨group, target, until_, read, late, ended⟩
    · exact same
    · refine ended.trans (endMutes_eq_iff.mpr fun span member running => safe ?_)
      exact ⟨group, target, until_, read, late, span, member, running⟩

/-- A guest muted at 120 until 500. -/
def mutedClub : List Event :=
  genesis founder club "club" true 100 ++
    [(Draft.joinPublic club).sign guest 110, (Draft.muteUser club guest (some 500)).sign founder 120]

/-- A mute that would end before it begins. -/
def backwardsMute : Event := (Draft.muteUser club guest (some 125)).sign founder 130

/-- It is refused, and the guest is no longer silenced at 200. -/
theorem backwardsMute_unmutes : ∃ s, fold club mutedClub = some s ∧
    (s.apply backwardsMute).2 = .error .malformed ∧ (s.silenceAt guest 200).isSome = true ∧
      ((s.apply backwardsMute).1.silenceAt guest 200).isSome = false ∧ (s.apply backwardsMute).1 ≠ s := by
  have facts : ((fold club mutedClub).any fun s =>
      decide ((s.apply backwardsMute).2 = .error .malformed) && (s.silenceAt guest 200).isSome &&
        !((s.apply backwardsMute).1.silenceAt guest 200).isSome) = true := by
    decide +kernel
  obtain ⟨s, found, checks⟩ := (Option.any_eq_true _ _).mp facts
  simp only [Bool.and_eq_true, decide_eq_true_eq, Bool.not_eq_true'] at checks
  refine ⟨s, found, checks.1.1, checks.1.2, checks.2, fun same => ?_⟩
  rw [same, checks.1.2] at checks
  cases checks.2

end HitEnter.Group.GroupState
