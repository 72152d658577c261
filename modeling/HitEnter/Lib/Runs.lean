import Mathlib

/-! Runs of a step function in which every step meets a condition on the state it is
taken in, and the rule that carries an invariant along such a run. -/

namespace HitEnter.Lib.Runs

variable {σ α : Type}

/-- The state after `acts`. -/
def run (step : σ → α → σ) (s : σ) (acts : List α) : σ := acts.foldl step s

/-- Each act meets its condition in the state the ones before it left. -/
def Met (meets : σ → α → Bool) (step : σ → α → σ) : σ → List α → Prop
  | _, [] => True
  | s, act :: rest => meets s act = true ∧ Met meets step (step s act) rest

instance (meets : σ → α → Bool) (step : σ → α → σ) : ∀ s acts, Decidable (Met meets step s acts)
  | _, [] => isTrue trivial
  | s, act :: rest =>
    haveI := instDecidableMet meets step (step s act) rest
    inferInstanceAs (Decidable (_ ∧ _))

variable {meets : σ → α → Bool} {step : σ → α → σ} {Inv : σ → Prop}

/-- A run meets the conditions if its first part does, and the rest from where that ends. -/
theorem met_append {s : σ} {acts more : List α} :
    Met meets step s (acts ++ more) ↔ Met meets step s acts ∧ Met meets step (run step s acts) more := by
  induction acts generalizing s with
  | nil => simp [Met, run]
  | cons act rest ih => simp only [List.cons_append, Met, ih, and_assoc, run, List.foldl_cons]

theorem run_snoc (step : σ → α → σ) (s : σ) (acts : List α) (act : α) :
    run step s (acts ++ [act]) = step (run step s acts) act :=
  List.foldl_concat step s act acts

/-- What every step that meets its condition keeps, a run of such steps keeps. -/
theorem run_invariant (keeps : ∀ s act, meets s act = true → Inv s → Inv (step s act)) {s : σ} {acts : List α}
    (met : Met meets step s acts) (initial : Inv s) : Inv (run step s acts) := by
  induction acts generalizing s with
  | nil => exact initial
  | cons act rest ih =>
    obtain ⟨first, later⟩ := met
    exact ih later (keeps s act first initial)

/-- What every step keeps, a run keeps. -/
theorem run_keeps (keeps : ∀ s act, Inv s → Inv (step s act)) {s : σ} (acts : List α) (initial : Inv s) :
    Inv (run step s acts) := by
  induction acts generalizing s with
  | nil => exact initial
  | cons act rest ih => exact ih (keeps s act initial)

/-- `Good` holds in every state on the way. -/
def Always (Good : σ → Prop) (step : σ → α → σ) : σ → List α → Prop
  | s, [] => Good s
  | s, act :: rest => Good s ∧ Always Good step (step s act) rest

variable {Good : σ → Prop}

theorem Always.last {s : σ} {acts : List α} (always : Always Good step s acts) : Good (run step s acts) := by
  induction acts generalizing s with
  | nil => exact always
  | cons act rest ih => exact ih always.2

/-- Where a step keeps what is good just by meeting its condition, a run does. -/
theorem always_iff_met (keeps : ∀ s act, Inv s → Inv (step s act))
    (exact : ∀ s act, Inv s → Good s → (Good (step s act) ↔ meets s act = true)) {s : σ} {acts : List α}
    (initial : Inv s) (good : Good s) : Always Good step s acts ↔ Met meets step s acts := by
  induction acts generalizing s with
  | nil => exact iff_of_true good trivial
  | cons act rest ih =>
    have first := exact s act initial good
    constructor
    · rintro ⟨_, later⟩
      have next : Good (step s act) := by
        cases rest with
        | nil => exact later
        | cons _ _ => exact later.1
      exact ⟨first.mp next, (ih (keeps s act initial) next).mp later⟩
    · rintro ⟨met, later⟩
      exact ⟨good, (ih (keeps s act initial) (first.mpr met)).mpr later⟩

/-- Conditions that are the same in every state a run can come to are met by the same runs. -/
theorem met_congr {other : σ → α → Bool} (keeps : ∀ s act, Inv s → Inv (step s act))
    (same : ∀ s act, Inv s → meets s act = other s act) {s : σ} {acts : List α} (initial : Inv s) :
    Met meets step s acts ↔ Met other step s acts := by
  induction acts generalizing s with
  | nil => exact Iff.rfl
  | cons act rest ih => simp only [Met, same s act initial, ih (keeps s act initial)]

end HitEnter.Lib.Runs
