import Mathlib

/-! Runs of checks that stop at the first refusal. -/

namespace HitEnter.Lib.Checks

variable {ε α β : Type}

/-- Stop with `refusal` if `condition` holds. -/
def refuseIf (condition : Bool) (refusal : ε) : Except ε Unit :=
  if condition then .error refusal else .ok ()

/-- The value looked up, or stop with `refusal`. -/
def orRefuse (value : Option α) (refusal : ε) : Except ε α := value.elim (.error refusal) .ok

/-- Stop with the refusal there is, if any. -/
def refuseWith (refusal : Option ε) : Except ε Unit := refusal.elim (.ok ()) .error

@[simp] theorem refuseIf_eq_ok {condition : Bool} {refusal : ε} {done : Unit} :
    refuseIf condition refusal = .ok done ↔ condition = false := by
  cases condition <;> simp [refuseIf]

@[simp] theorem orRefuse_eq_ok {value : Option α} {refusal : ε} {a : α} :
    orRefuse value refusal = .ok a ↔ value = some a := by
  cases value <;> simp [orRefuse]

@[simp] theorem refuseWith_eq_ok {refusal : Option ε} {done : Unit} :
    refuseWith refusal = .ok done ↔ refusal = none := by
  cases refusal <;> simp [refuseWith]

@[simp] theorem bind_eq_ok {first : Except ε α} {next : α → Except ε β} {b : β} :
    (first >>= next) = .ok b ↔ ∃ a, first = .ok a ∧ next a = .ok b := by
  cases first <;> simp [bind, Except.bind]

@[simp] theorem pure_eq_ok {a b : α} : (pure a : Except ε α) = .ok b ↔ a = b := by
  simp [pure, Except.pure]

theorem refuseIf_false_bind {refusal : ε} {next : Unit → Except ε β} :
    (refuseIf false refusal >>= next) = next () := rfl

theorem orRefuse_some_bind {a : α} {refusal : ε} {next : α → Except ε β} :
    (orRefuse (some a) refusal >>= next) = next a := rfl

/-- Two computations alike up to `f` fail alike, or both succeed. -/
theorem map_eq_map {f : α → β} {first second : Except ε α} (same : f <$> first = f <$> second) :
    (∃ refusal, first = .error refusal ∧ second = .error refusal) ∨
      ∃ a b, first = .ok a ∧ second = .ok b ∧ f a = f b := by
  cases first with
  | error refusal =>
    cases second with
    | error other =>
      obtain rfl : refusal = other := by simpa using same
      exact .inl ⟨refusal, rfl, rfl⟩
    | ok b => simp at same
  | ok a =>
    cases second with
    | error other => simp at same
    | ok b => exact .inr ⟨a, b, rfl, rfl, by simpa using same⟩

/-- A fold whose steps all succeed, as a rule: what holds of the start and is
carried over by each step, along with what has been done, holds of the whole. -/
theorem foldlM_history {Inv : List α → β → Prop} {step : β → α → Except ε β} {items : List α}
    (carries : ∀ done x rest, items = done ++ x :: rest → ∀ b b', step b x = .ok b' →
      Inv done b → Inv (done ++ [x]) b')
    (ran : items.foldlM step b = .ok final) (initial : Inv [] b) : Inv items final := by
  suffices general : ∀ (done rest : List α) (b : β), items = done ++ rest →
      rest.foldlM step b = .ok final → Inv done b → Inv items final from
    general [] items b rfl ran initial
  intro done rest
  induction rest generalizing done with
  | nil =>
    intro b whole ran holds
    simp only [List.foldlM_nil, pure_eq_ok] at ran
    simpa [whole, ← ran] using holds
  | cons x rest ih =>
    intro b whole ran holds
    simp only [List.foldlM_cons, bind_eq_ok] at ran
    obtain ⟨next, first, ran⟩ := ran
    exact ih (done ++ [x]) next (by simpa using whole) ran (carries done x rest whole b next first holds)

/-- What each step keeps, the whole keeps. -/
theorem foldlM_invariant {Inv : β → Prop} {step : β → α → Except ε β} {items : List α}
    (keeps : ∀ b, ∀ x ∈ items, ∀ b', step b x = .ok b' → Inv b → Inv b')
    (ran : items.foldlM step b = .ok final) (initial : Inv b) : Inv final :=
  foldlM_history (fun _ x _ whole b b' step => keeps b x (by simp [whole]) b' step) ran initial

end HitEnter.Lib.Checks
