import HitEnter.Group.Core
import HitEnter.Group.History
import HitEnter.Lib.Fixpoint

/-! One second of the fold: its actions are tried until nothing of the rest applies, and
what is then left, the state they come to refuses. -/

namespace HitEnter.Group.GroupState

open Wire Lib.Rounds

variable [Nostr] {s t : GroupState} {ev : Event}

/-- Applies one second's actions, and what did not apply. -/
def applySecond (s : GroupState) (pending : List Event) : GroupState × List Event := settle attempt s pending

/-- The tries of a second, in order. -/
def secondTries (s : GroupState) (pending : List Event) : List Try := (settle (logged attempt) (s, []) pending).1.2

/-- The fold applies one second after the other. -/
theorem fold_eq_applySecond {group : PublicKey} {events : List Event} {dates : List Timestamp}
    (increasing : dates.Pairwise (· < ·))
    (covers : ∀ s, start group events = some s → ∀ ev ∈ live group events s.cutoff, ev.createdAt ∈ dates) :
    fold group events = (start group events).map fun s =>
      dates.foldl (fun t d => (t.applySecond ((live group events s.cutoff).filter (·.createdAt = d))).1) s :=
  fold_eq_runDates increasing covers

/-- Alike but for the spans of silence. -/
private def Muffled (s t : GroupState) : Prop := { s with silences := t.silences } = t

omit [Nostr] in
private theorem muffled_equivalence : Equivalence Muffled where
  refl _ := rfl
  symm related := by
    rw [Muffled] at related ⊢
    rw [← related]
  trans first second := by
    rw [Muffled] at first second ⊢
    rw [← second, ← first]

/-- No verdict rests on the spans. -/
private theorem Muffled.verdict (related : Muffled s t) : (s.attempt ev).2 = (t.attempt ev).2 := by
  rw [Muffled] at related
  rw [← related]
  have same : s.core = { s with silences := t.silences }.core := rfl
  exact (attempt_congr same fun _ _ _ => rfl).1

private theorem attempt_muffled (refused : (s.attempt ev).2 = false) : Muffled (s.attempt ev).1 s := by
  rcases attempt_cases s ev with ⟨next, _, ok⟩ | ⟨_, spans, same⟩
  · rw [ok] at refused
    cases refused
  · rw [same]
    rfl

/-- A second ends; each of its actions is applied once or left; and what is left is refused
by the state they come to. -/
theorem applySecond_fixpoint (s : GroupState) (pending : List Event) :
    Settles attempt s pending (s.applySecond pending) ∧
    ((((s.secondTries pending).filter Try.accepted).map Prod.snd) ++ (s.applySecond pending).2).Perm pending ∧
    ∀ ev ∈ (s.applySecond pending).2, ∃ refusal, ((s.applySecond pending).1.apply ev).2 = .error refusal := by
  refine ⟨settle_settles attempt s pending, ?_, fun ev left => ?_⟩
  · have once := @settle_logged_perm _ _ attempt s pending
    rw [(settle_logged s [] pending).2, acceptedIn] at once
    exact once
  · have refused := @settle_refused _ _ attempt s pending Muffled muffled_equivalence
      (fun _ _ _ related => related.verdict) (fun _ _ => attempt_muffled) ev left
    rcases attempt_cases (settle attempt s pending).1 ev with ⟨_, _, ok⟩ | ⟨error, _⟩
    · rw [ok] at refused
      cases refused
    · exact error

end HitEnter.Group.GroupState
