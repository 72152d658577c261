import HitEnter.Lib.Rounds

/-! A run that writes down its tries: each entry of the log has the item tried
and the state it was tried in, so that what the run does is read off its log. -/

namespace HitEnter.Lib.Rounds

variable {σ ι δ : Type}

/-- `attempt`, with every try written down as it is made. -/
def logged (attempt : σ → ι → σ × Bool) (acc : σ × List (σ × ι)) (x : ι) : (σ × List (σ × ι)) × Bool :=
  (((attempt acc.1 x).1, acc.2 ++ [(acc.1, x)]), (attempt acc.1 x).2)

/-- A log of tries at `items` that begins in `s` and ends in `t`: every try meets
the state the ones before it left, and none is dated before them. -/
inductive Logs [LE δ] (attempt : σ → ι → σ × Bool) (date : ι → δ) (items : List ι) (s : σ) :
    List (σ × ι) → σ → Prop where
  | nil : Logs attempt date items s [] s
  | snoc (front : Logs attempt date items s log t) (member : x ∈ items)
      (due : ∀ entry ∈ log, date entry.2 ≤ date x) :
      Logs attempt date items s (log ++ [(t, x)]) (attempt t x).1

variable [LinearOrder δ] {attempt : σ → ι → σ × Bool} {date : ι → δ} {dates : List δ} {items : List ι}

/-- A log with nothing dated after `d`. -/
private def LogsUpto (attempt : σ → ι → σ × Bool) (date : ι → δ) (items : List ι) (s : σ) (d : δ)
    (acc : σ × List (σ × ι)) : Prop :=
  Logs attempt date items s acc.2 acc.1 ∧ ∀ entry ∈ acc.2, date entry.2 ≤ d

/-- Writing the tries down changes none of them. -/
theorem runDates_logged_fst (s : σ) (log : List (σ × ι)) :
    (runDates (logged attempt) date dates (s, log) items).1 = runDates attempt date dates s items := by
  refine runDates_simulation (R := fun (acc : σ × List (σ × ι)) t => acc.1 = t) ?_ rfl
  rintro acc t x _ rfl
  exact ⟨rfl, rfl⟩

/-- What a run over increasing dates writes down is a log of it. -/
theorem runDates_logs (increasing : dates.Pairwise (· < ·)) (s : σ) :
    Logs attempt date items s (runDates (logged attempt) date dates (s, []) items).2
      (runDates (logged attempt) date dates (s, []) items).1 := by
  suffices general : ∀ acc : σ × List (σ × ι), Logs attempt date items s acc.2 acc.1 →
      (∀ d ∈ dates, ∀ entry ∈ acc.2, date entry.2 ≤ d) →
      Logs attempt date items s (runDates (logged attempt) date dates acc items).2
        (runDates (logged attempt) date dates acc items).1 from
    general (s, []) .nil (by simp)
  induction dates with
  | nil => exact fun _ logs _ => logs
  | cons d rest ih =>
    intro acc logs before
    obtain ⟨first, increasing⟩ := List.pairwise_cons.mp increasing
    have batch : LogsUpto attempt date items s d
        (settle (logged attempt) acc (items.filter fun x => date x = d)).1 := by
      refine settle_invariant ?_ ⟨logs, before d List.mem_cons_self⟩
      rintro acc x member ⟨logs, upto⟩
      obtain ⟨known, today⟩ := List.mem_filter.mp member
      have same : date x = d := of_decide_eq_true today
      refine ⟨logs.snoc known fun entry here => same ▸ upto entry here, fun entry here => ?_⟩
      rcases List.mem_append.mp here with old | new
      · exact upto entry old
      · rw [List.mem_singleton.mp new]
        exact same.le
    refine ih increasing _ batch.1 fun e later entry here => ?_
    exact (batch.2 entry here).trans (first e later).le

end HitEnter.Lib.Rounds
