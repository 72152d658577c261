import HitEnter.Lib.Log

/-! Where the loop ends: every item is accepted once or left over, and what is left over is
refused by the state the loop ends in, if a refused try changes nothing that verdicts rest on. -/

namespace HitEnter.Lib.Rounds

variable {σ ι : Type}

/-- The loop as it runs, pass by pass, to its end. -/
inductive Settles (attempt : σ → ι → σ × Bool) : σ → List ι → σ × List ι → Prop where
  | ends {s : σ} {pending : List ι}
      (over_ : (pass attempt s pending).2.length = pending.length ∨ (pass attempt s pending).2.isEmpty) :
      Settles attempt s pending (pass attempt s pending)
  | again {s : σ} {pending : List ι}
      (progress : ¬ ((pass attempt s pending).2.length = pending.length ∨ (pass attempt s pending).2.isEmpty))
      (rest : Settles attempt (pass attempt s pending).1 (pass attempt s pending).2 out) :
      Settles attempt s pending out

variable {attempt : σ → ι → σ × Bool} {s : σ} {pending : List ι}

/-- The loop ends, whatever it is given. -/
theorem settle_settles (attempt : σ → ι → σ × Bool) (s : σ) (pending : List ι) :
    Settles attempt s pending (settle attempt s pending) := by
  induction s, pending using settle_induction attempt with
  | stuck s pending same =>
    rw [settle_stuck same]
    exact .ends (.inl same)
  | progress s pending more ih =>
    by_cases empty : (pass attempt s pending).2.isEmpty = true
    · rw [settle_eq, if_pos (.inr empty)]
      exact .ends (.inr empty)
    · have progress := not_or.mpr ⟨more, empty⟩
      rw [settle_progress more]
      exact .again progress ih

/-- The items accepted in a log. -/
def acceptedIn (attempt : σ → ι → σ × Bool) (log : List (σ × ι)) : List ι :=
  (log.filter fun entry => (attempt entry.1 entry.2).2).map Prod.snd

private theorem acceptedIn_snoc (log : List (σ × ι)) (s : σ) (x : ι) :
    acceptedIn attempt (log ++ [(s, x)]) =
      if (attempt s x).2 then acceptedIn attempt log ++ [x] else acceptedIn attempt log := by
  unfold acceptedIn
  cases verdict : (attempt s x).2 <;> simp [verdict]

/-- A pass accepts an item or keeps it, each once. -/
private theorem pass_logged_perm (s : σ) (log : List (σ × ι)) (pending : List ι) :
    (acceptedIn attempt (pass (logged attempt) (s, log) pending).1.2 ++ (pass (logged attempt) (s, log) pending).2).Perm
      (acceptedIn attempt log ++ pending) := by
  induction pending generalizing s log with
  | nil => exact .refl _
  | cons x rest ih =>
    have later := ih (attempt s x).1 (log ++ [(s, x)])
    rw [acceptedIn_snoc] at later
    cases verdict : (attempt s x).2 with
    | true =>
      rw [pass_accepted (show (logged attempt (s, log) x).2 = true from verdict)]
      simp only [verdict, ↓reduceIte, List.append_assoc, List.singleton_append] at later
      exact later
    | false =>
      rw [pass_refused (show (logged attempt (s, log) x).2 = false from verdict)]
      simp only [verdict, Bool.false_eq_true, ↓reduceIte] at later
      exact (List.perm_middle.trans (later.cons x)).trans List.perm_middle.symm

theorem settle_logged_perm (s : σ) (pending : List ι) :
    (acceptedIn attempt (settle (logged attempt) (s, []) pending).1.2 ++ (settle (logged attempt) (s, []) pending).2).Perm
      pending := by
  suffices general : ∀ (acc : σ × List (σ × ι)) (pending : List ι),
      (acceptedIn attempt (settle (logged attempt) acc pending).1.2 ++ (settle (logged attempt) acc pending).2).Perm
        (acceptedIn attempt acc.2 ++ pending) from
    general (s, []) pending
  intro acc pending
  induction acc, pending using settle_induction (logged attempt) with
  | stuck acc pending same =>
    rw [settle_stuck same]
    exact pass_logged_perm acc.1 acc.2 pending
  | progress acc pending more ih =>
    rw [settle_progress more]
    exact ih.trans (pass_logged_perm acc.1 acc.2 pending)

/-- Writing the tries down changes neither what the loop comes to nor what it leaves. -/
theorem settle_logged (s : σ) (log : List (σ × ι)) (pending : List ι) :
    (settle (logged attempt) (s, log) pending).1.1 = (settle attempt s pending).1 ∧
      (settle (logged attempt) (s, log) pending).2 = (settle attempt s pending).2 := by
  refine settle_simulation (R := fun (acc : σ × List (σ × ι)) t => acc.1 = t) pending ?_ rfl
  rintro acc t x _ rfl
  exact ⟨rfl, rfl⟩

section Refusals
variable {R : σ → σ → Prop} (equiv : Equivalence R)
  (step : ∀ s t x, R s t → (attempt s x).2 = (attempt t x).2)
  (inert : ∀ s x, (attempt s x).2 = false → R (attempt s x).1 s)
include equiv step inert

/-- A pass that accepts nothing ends where it began, but for what no verdict rests on. -/
private theorem pass_stuck (stuck : (pass attempt s pending).2.length = pending.length) :
    R (pass attempt s pending).1 s ∧ ∀ x ∈ pending, (attempt s x).2 = false := by
  induction pending generalizing s with
  | nil => exact ⟨equiv.refl s, nofun⟩
  | cons x rest ih =>
    cases verdict : (attempt s x).2 with
    | true =>
      have fewer := (pass_kept_sublist attempt (attempt s x).1 rest).length_le
      rw [pass_accepted verdict, List.length_cons] at stuck
      omega
    | false =>
      rw [pass_refused verdict] at stuck ⊢
      have near := inert s x verdict
      obtain ⟨ended, refused⟩ := ih (by simpa using stuck)
      refine ⟨equiv.trans ended near, fun y member => ?_⟩
      rcases List.mem_cons.mp member with rfl | later
      · exact verdict
      · exact (step _ _ y near).symm.trans (refused y later)

/-- What the loop leaves, the state it ends in refuses. -/
theorem settle_refused : ∀ x ∈ (settle attempt s pending).2, (attempt (settle attempt s pending).1 x).2 = false := by
  induction s, pending using settle_induction attempt with
  | stuck s pending same =>
    rw [settle_stuck same, pass_stuck_kept same]
    obtain ⟨ended, refused⟩ := pass_stuck equiv step inert same
    exact fun x member => (step _ _ x ended).trans (refused x member)
  | progress s pending more ih =>
    rw [settle_progress more]
    exact ih

end Refusals

end HitEnter.Lib.Rounds
