import Mathlib

/-! Applying a list of items to a state, each item only if the state accepts
it, and trying the refused ones again while any pass accepts something. Items
and states are arbitrary; `attempt` says what one try does to the state, whether
it accepted the item or not. -/

namespace HitEnter.Lib.Rounds

variable {σ τ ι δ : Type}

/-- One pass: every item is tried once, in order; the refused ones are kept. -/
def pass (attempt : σ → ι → σ × Bool) : σ → List ι → σ × List ι
  | s, [] => (s, [])
  | s, x :: rest =>
    let out := pass attempt (attempt s x).1 rest
    if (attempt s x).2 then out else (out.1, x :: out.2)

/-- Passes until one accepts nothing or nothing is left, at most `fuel`. -/
def rounds (attempt : σ → ι → σ × Bool) : Nat → σ → List ι → σ × List ι
  | 0, s, pending => (s, pending)
  | fuel + 1, s, pending =>
    let out := pass attempt s pending
    if out.2.length = pending.length ∨ out.2.isEmpty then out
    else rounds attempt fuel out.1 out.2

/-- The loop without a bound: each pass but the last accepts an item, so one
more pass than there are items is enough (`settle_eq`). -/
def settle (attempt : σ → ι → σ × Bool) (s : σ) (pending : List ι) : σ × List ι :=
  rounds attempt (pending.length + 1) s pending

/-- A first pass over everything, and then the loop over what it refused. -/
def retry (attempt : σ → ι → σ × Bool) (s : σ) (pending : List ι) : σ × List ι :=
  settle attempt (pass attempt s pending).1 (pass attempt s pending).2

section Loop
variable {attempt : σ → ι → σ × Bool}

@[simp] theorem pass_nil (s : σ) : pass attempt s [] = (s, []) := rfl

theorem pass_accepted (accepted : (attempt s x).2 = true) :
    pass attempt s (x :: rest) = pass attempt (attempt s x).1 rest := by
  simp [pass, accepted]

theorem pass_refused (refused : (attempt s x).2 = false) :
    pass attempt s (x :: rest) =
      ((pass attempt (attempt s x).1 rest).1, x :: (pass attempt (attempt s x).1 rest).2) := by
  simp [pass, refused]

theorem pass_kept_sublist (attempt : σ → ι → σ × Bool) (s : σ) (pending : List ι) :
    (pass attempt s pending).2.Sublist pending := by
  induction pending generalizing s with
  | nil => exact List.Sublist.refl _
  | cons x rest ih =>
    cases verdict : (attempt s x).2 with
    | true => rw [pass_accepted verdict]; exact (ih _).trans (List.sublist_cons_self x rest)
    | false => rw [pass_refused verdict]; exact (ih _).cons_cons x

private theorem rounds_fuel (first : Nat) (s : σ) (pending : List ι)
    (enough : pending.length < first) (also : pending.length < second) :
    rounds attempt first s pending = rounds attempt second s pending := by
  induction first generalizing s pending second with
  | zero => simp at enough
  | succ first ih =>
    cases second with
    | zero => simp at also
    | succ second =>
      simp only [rounds]
      split
      · rfl
      · rename_i progress
        have fewer := (pass_kept_sublist attempt s pending).length_le
        simp only [not_or] at progress
        exact ih _ _ (by omega) (by omega)

/-- The loop as it runs: one pass, and again from what it left. -/
theorem settle_eq (s : σ) (pending : List ι) :
    settle attempt s pending =
      if (pass attempt s pending).2.length = pending.length ∨ (pass attempt s pending).2.isEmpty then
        pass attempt s pending
      else settle attempt (pass attempt s pending).1 (pass attempt s pending).2 := by
  rw [settle, rounds]
  split
  · rfl
  · rename_i progress
    have fewer := (pass_kept_sublist attempt s pending).length_le
    simp only [not_or] at progress
    exact rounds_fuel _ _ _ (by omega) (Nat.lt_succ_self _)

@[simp] theorem settle_nil (s : σ) : settle attempt s [] = (s, []) := by simp [settle_eq]

/-- A pass that accepted something may be followed by the rest of the loop,
also where nothing is left to do. -/
theorem settle_progress
    (progress : (pass attempt s pending).2.length ≠ pending.length) :
    settle attempt s pending = settle attempt (pass attempt s pending).1 (pass attempt s pending).2 := by
  rw [settle_eq]
  split
  · rename_i ended
    have none : (pass attempt s pending).2 = [] := by simpa [progress] using ended
    rw [none, settle_nil, ← none]
  · rfl

theorem settle_stuck (stuck : (pass attempt s pending).2.length = pending.length) :
    settle attempt s pending = pass attempt s pending := by
  rw [settle_eq, if_pos (.inl stuck)]

theorem pass_stuck_kept (stuck : (pass attempt s pending).2.length = pending.length) :
    (pass attempt s pending).2 = pending :=
  (pass_kept_sublist attempt s pending).eq_of_length stuck

/-- The induction behind every fact about the loop: it ends in a pass that
accepts nothing, and otherwise continues from a shorter list. -/
theorem settle_induction (attempt : σ → ι → σ × Bool) {motive : σ → List ι → Prop}
    (stuck : ∀ s pending, (pass attempt s pending).2.length = pending.length → motive s pending)
    (progress : ∀ s pending, (pass attempt s pending).2.length ≠ pending.length →
      motive (pass attempt s pending).1 (pass attempt s pending).2 → motive s pending)
    (s : σ) (pending : List ι) : motive s pending := by
  induction size : pending.length using Nat.strongRecOn generalizing s pending with
  | ind size ih =>
    by_cases same : (pass attempt s pending).2.length = pending.length
    · exact stuck s pending same
    · have fewer := (pass_kept_sublist attempt s pending).length_le
      exact progress s pending same (ih _ (by omega) _ _ rfl)

theorem settle_kept_sublist (s : σ) (pending : List ι) :
    (settle attempt s pending).2.Sublist pending := by
  induction s, pending using settle_induction attempt with
  | stuck s pending same => rw [settle_stuck same]; exact pass_kept_sublist attempt s pending
  | progress s pending more ih => rw [settle_progress more]; exact ih.trans (pass_kept_sublist attempt s pending)

theorem settle_kept_subset_pass (s : σ) (pending : List ι) :
    (settle attempt s pending).2 ⊆ (pass attempt s pending).2 := by
  by_cases same : (pass attempt s pending).2.length = pending.length
  · rw [settle_stuck same]; exact List.Subset.refl _
  · rw [settle_progress same]; exact (settle_kept_sublist _ _).subset

/-! ### The invariant rule -/

theorem pass_invariant {Inv : σ → Prop} {pending : List ι}
    (step : ∀ s, ∀ x ∈ pending, Inv s → Inv (attempt s x).1) (initial : Inv s) :
    Inv (pass attempt s pending).1 := by
  induction pending generalizing s with
  | nil => exact initial
  | cons x rest ih =>
    have next := ih (fun s y member => step s y (List.mem_cons_of_mem x member))
      (step s x List.mem_cons_self initial)
    cases verdict : (attempt s x).2 with
    | true => rw [pass_accepted verdict]; exact next
    | false => rw [pass_refused verdict]; exact next

theorem settle_invariant {Inv : σ → Prop} {pending : List ι}
    (step : ∀ s, ∀ x ∈ pending, Inv s → Inv (attempt s x).1) (initial : Inv s) :
    Inv (settle attempt s pending).1 := by
  induction s, pending using settle_induction attempt with
  | stuck s pending same => rw [settle_stuck same]; exact pass_invariant step initial
  | progress s pending more ih =>
    rw [settle_progress more]
    refine ih (fun s x member => step s x ?_) (pass_invariant step initial)
    exact (pass_kept_sublist _ _ _).subset member

/-! ### What is counted -/

theorem pass_count {count : σ → ℕ} {pending : List ι}
    (step : ∀ s x, count (attempt s x).1 = count s + if (attempt s x).2 then 1 else 0) (s : σ) :
    count (pass attempt s pending).1 + (pass attempt s pending).2.length = count s + pending.length := by
  induction pending generalizing s with
  | nil => rfl
  | cons x rest ih =>
    have next := ih (attempt s x).1
    rw [step s x] at next
    cases verdict : (attempt s x).2 with
    | true =>
      rw [pass_accepted verdict, next, verdict, List.length_cons]
      simp only [↓reduceIte]
      omega
    | false =>
      rw [pass_refused verdict, List.length_cons, List.length_cons, ← Nat.add_assoc, next, verdict]
      simp only [Bool.false_eq_true, ↓reduceIte]
      omega

theorem settle_count {count : σ → ℕ} {pending : List ι}
    (step : ∀ s x, count (attempt s x).1 = count s + if (attempt s x).2 then 1 else 0) (s : σ) :
    count (settle attempt s pending).1 + (settle attempt s pending).2.length = count s + pending.length := by
  induction s, pending using settle_induction attempt with
  | stuck s pending same =>
    rw [settle_stuck same]
    exact pass_count step s
  | progress s pending more ih =>
    rw [settle_progress more, ih]
    exact pass_count step s

/-! ### What is left over, and what is not -/

section Marks
variable {Inv Mark : σ → Prop} {pending : List ι}

private theorem pass_marks (step : ∀ s, ∀ y ∈ pending, Inv s → Inv (attempt s y).1)
    (mark : ∀ s, Inv s → (attempt s x).2 = true → Mark (attempt s x).1)
    (keeps : ∀ s, ∀ y ∈ pending, Inv s → Mark s → Mark (attempt s y).1) (initial : Inv s)
    (member : x ∈ pending) : x ∈ (pass attempt s pending).2 ∨ Mark (pass attempt s pending).1 := by
  induction pending generalizing s with
  | nil => cases member
  | cons y rest ih =>
    have steps : ∀ s, ∀ z ∈ rest, Inv s → Inv (attempt s z).1 := fun s z here => step s z (List.mem_cons_of_mem y here)
    have kept : ∀ s, ∀ z ∈ rest, Inv s → Mark s → Mark (attempt s z).1 := fun s z here => keeps s z (List.mem_cons_of_mem y here)
    have next := step s y List.mem_cons_self initial
    cases verdict : (attempt s y).2 with
    | true =>
      rw [pass_accepted verdict]
      rcases List.mem_cons.mp member with rfl | inRest
      · have marked := mark s initial verdict
        have more : ∀ t, ∀ z ∈ rest, Inv t ∧ Mark t → Inv (attempt t z).1 ∧ Mark (attempt t z).1 :=
          fun t z here both => ⟨steps t z here both.1, kept t z here both.1 both.2⟩
        exact .inr (pass_invariant more ⟨next, marked⟩).2
      · exact ih steps kept next inRest
    | false =>
      rw [pass_refused verdict]
      rcases List.mem_cons.mp member with rfl | inRest
      · exact .inl List.mem_cons_self
      · exact (ih steps kept next inRest).imp_left (List.mem_cons_of_mem y)

private theorem settle_keeps (step : ∀ s, ∀ y ∈ pending, Inv s → Inv (attempt s y).1)
    (keeps : ∀ s, ∀ y ∈ pending, Inv s → Mark s → Mark (attempt s y).1) (initial : Inv s) (marked : Mark s) :
    Mark (settle attempt s pending).1 := by
  have more : ∀ t, ∀ y ∈ pending, Inv t ∧ Mark t → Inv (attempt t y).1 ∧ Mark (attempt t y).1 :=
    fun t y here both => ⟨step t y here both.1, keeps t y here both.1 both.2⟩
  exact (settle_invariant more ⟨initial, marked⟩).2

/-- An item is either left over or leaves its mark, when accepting it leaves a mark that
no later try removes, as long as the invariant holds. -/
theorem settle_marks_along (step : ∀ s, ∀ y ∈ pending, Inv s → Inv (attempt s y).1)
    (mark : ∀ s, Inv s → (attempt s x).2 = true → Mark (attempt s x).1)
    (keeps : ∀ s, ∀ y ∈ pending, Inv s → Mark s → Mark (attempt s y).1) (initial : Inv s)
    (member : x ∈ pending) : x ∈ (settle attempt s pending).2 ∨ Mark (settle attempt s pending).1 := by
  induction s, pending using settle_induction attempt with
  | stuck s pending same =>
    rw [settle_stuck same]
    exact pass_marks step mark keeps initial member
  | progress s pending more ih =>
    rw [settle_progress more]
    have fewer : ∀ y ∈ (pass attempt s pending).2, y ∈ pending := (pass_kept_sublist _ _ _).subset
    have next : Inv (pass attempt s pending).1 := pass_invariant step initial
    rcases pass_marks step mark keeps initial member with kept | done
    · exact ih (fun s y here => step s y (fewer y here)) (fun s y here => keeps s y (fewer y here)) next kept
    · exact .inr (settle_keeps (fun s y here => step s y (fewer y here)) (fun s y here => keeps s y (fewer y here)) next done)

end Marks

theorem settle_marks {Done : σ → ι → Prop} {pending : List ι}
    (mark : ∀ s x, (attempt s x).2 = true → Done (attempt s x).1 x)
    (keeps : ∀ s x y, Done s x → Done (attempt s y).1 x) (member : x ∈ pending) :
    x ∈ (settle attempt s pending).2 ∨ Done (settle attempt s pending).1 x := by
  have step : ∀ s, ∀ y ∈ pending, True → (fun _ : σ => True) (attempt s y).1 := fun _ _ _ => id
  exact settle_marks_along step (fun s _ => mark s x) (fun s y _ _ => keeps s x y) trivial member

/-- Where a refused try leaves a state that looks the same, what a pass refuses throughout
it refuses of states that look alike. -/
private theorem pass_left {look : σ → τ} {pending : List ι} (still : ∀ s x, (attempt s x).2 = false → look (attempt s x).1 = look s)
    (stuck : (pass attempt s pending).2 = pending) :
    look (pass attempt s pending).1 = look s ∧ ∀ x ∈ pending, ∃ u, look u = look s ∧ (attempt u x).2 = false := by
  induction pending generalizing s with
  | nil => exact ⟨rfl, by simp⟩
  | cons y rest ih =>
    have refused : (attempt s y).2 = false := by
      refine Bool.eq_false_iff.mpr fun accepted => ?_
      rw [pass_accepted accepted] at stuck
      have fewer := (pass_kept_sublist attempt (attempt s y).1 rest).length_le
      rw [stuck, List.length_cons] at fewer
      omega
    rw [pass_refused refused] at stuck ⊢
    have same := still s y refused
    obtain ⟨ends, each⟩ := ih (List.cons.inj stuck).2
    refine ⟨ends.trans same, List.forall_mem_cons.mpr ⟨⟨s, rfl, refused⟩, fun x inRest => ?_⟩⟩
    obtain ⟨u, looks, again⟩ := each x inRest
    exact ⟨u, looks.trans same, again⟩

/-- What the loop leaves over is refused of a state that looks like the one it ends in. -/
theorem settle_left {look : σ → τ} {pending : List ι} (still : ∀ s x, (attempt s x).2 = false → look (attempt s x).1 = look s)
    (left : x ∈ (settle attempt s pending).2) :
    ∃ u, look u = look (settle attempt s pending).1 ∧ (attempt u x).2 = false := by
  induction s, pending using settle_induction attempt with
  | stuck s pending same =>
    rw [settle_stuck same] at left ⊢
    obtain ⟨ends, each⟩ := pass_left still (pass_stuck_kept same)
    obtain ⟨u, looks, refused⟩ := each x ((pass_kept_sublist _ _ _).subset left)
    exact ⟨u, looks.trans ends.symm, refused⟩
  | progress s pending more ih =>
    rw [settle_progress more] at left ⊢
    exact ih left

/-! ### A first pass, and then the loop -/

theorem retry_invariant {Inv : σ → Prop} {pending : List ι}
    (step : ∀ s, ∀ x ∈ pending, Inv s → Inv (attempt s x).1) (initial : Inv s) :
    Inv (retry attempt s pending).1 :=
  settle_invariant (fun s x here => step s x ((pass_kept_sublist _ _ _).subset here)) (pass_invariant step initial)

theorem retry_marks {Inv Mark : σ → Prop} {pending : List ι}
    (step : ∀ s, ∀ y ∈ pending, Inv s → Inv (attempt s y).1)
    (mark : ∀ s, Inv s → (attempt s x).2 = true → Mark (attempt s x).1)
    (keeps : ∀ s, ∀ y ∈ pending, Inv s → Mark s → Mark (attempt s y).1) (initial : Inv s)
    (member : x ∈ pending) : x ∈ (retry attempt s pending).2 ∨ Mark (retry attempt s pending).1 := by
  have fewer : ∀ y ∈ (pass attempt s pending).2, y ∈ pending := (pass_kept_sublist _ _ _).subset
  have next : Inv (pass attempt s pending).1 := pass_invariant step initial
  rcases pass_marks step mark keeps initial member with kept | done
  · exact settle_marks_along (fun s y here => step s y (fewer y here)) mark (fun s y here => keeps s y (fewer y here)) next kept
  · exact .inr (settle_keeps (fun s y here => step s y (fewer y here)) (fun s y here => keeps s y (fewer y here)) next done)

theorem retry_left {look : σ → τ} {pending : List ι} (still : ∀ s x, (attempt s x).2 = false → look (attempt s x).1 = look s)
    (left : x ∈ (retry attempt s pending).2) :
    ∃ u, look u = look (retry attempt s pending).1 ∧ (attempt u x).2 = false := settle_left still left

end Loop

/-! ### The simulation rule -/

section Simulation
variable {attempt : σ → ι → σ × Bool} {other : τ → ι → τ × Bool} {R : σ → τ → Prop}

theorem pass_simulation {pending : List ι}
    (step : ∀ s t, ∀ x ∈ pending, R s t →
      (attempt s x).2 = (other t x).2 ∧ R (attempt s x).1 (other t x).1) (related : R s t) :
    R (pass attempt s pending).1 (pass other t pending).1 ∧
      (pass attempt s pending).2 = (pass other t pending).2 := by
  induction pending generalizing s t with
  | nil => exact ⟨related, rfl⟩
  | cons x rest ih =>
    obtain ⟨verdict, next⟩ := step s t x List.mem_cons_self related
    obtain ⟨rest, kept⟩ := ih (fun s t y member => step s t y (List.mem_cons_of_mem x member)) next
    cases accepted : (attempt s x).2 with
    | true =>
      rw [pass_accepted accepted, pass_accepted (verdict ▸ accepted)]
      exact ⟨rest, kept⟩
    | false =>
      rw [pass_refused accepted, pass_refused (verdict ▸ accepted)]
      exact ⟨rest, congrArg (x :: ·) kept⟩

/-- Two loops over the same items whose tries agree on related states end in
related states with the same items left. -/
theorem settle_simulation (pending : List ι)
    (step : ∀ s t, ∀ x ∈ pending, R s t →
      (attempt s x).2 = (other t x).2 ∧ R (attempt s x).1 (other t x).1) (related : R s t) :
    R (settle attempt s pending).1 (settle other t pending).1 ∧
      (settle attempt s pending).2 = (settle other t pending).2 := by
  induction s, pending using settle_induction attempt generalizing t with
  | stuck s pending same =>
    have both := pass_simulation step related
    rw [settle_stuck same, settle_stuck (by rw [← both.2]; exact same)]
    exact both
  | progress s pending more ih =>
    have both := pass_simulation step related
    rw [settle_progress more, settle_progress (s := t) (by rw [← both.2]; exact more), ← both.2]
    refine ih (fun s t x member => step s t x ?_) both.1
    exact (pass_kept_sublist _ _ _).subset member

end Simulation

/-! ### Items that are always refused -/

section Extras
variable {attempt : σ → ι → σ × Bool} {R : σ → σ → Prop} {extra : ι → Bool}

/-- Along the pass that skips the extras, each extra is refused where it stands. -/
private def Spurned (attempt : σ → ι → σ × Bool) (extra : ι → Bool) : σ → List ι → Prop
  | _, [] => True
  | s, x :: rest =>
    if extra x then (attempt s x).2 = false ∧ Spurned attempt extra s rest
    else Spurned attempt extra (attempt s x).1 rest

/-- The items without the extras. -/
def without (extra : ι → Bool) (pending : List ι) : List ι := pending.filter fun y => !extra y

variable [DecidableEq ι]

/-- The items without the extras, but for one of them. -/
def withOnly (extra : ι → Bool) (x : ι) (pending : List ι) : List ι :=
  pending.filter fun y => !extra y || y == x

private theorem spurned_of_kept {pending : List ι} (distinct : pending.Nodup)
    (kept : ∀ x ∈ pending, extra x = true → x ∈ (pass attempt s (withOnly extra x pending)).2) :
    Spurned attempt extra s pending := by
  induction pending generalizing s with
  | nil => trivial
  | cons y rest ih =>
    obtain ⟨fresh, distinct⟩ := List.nodup_cons.mp distinct
    unfold Spurned
    cases chosen : extra y with
    | true =>
      have own := kept y List.mem_cons_self chosen
      have split : withOnly extra y (y :: rest) = y :: withOnly extra y rest := by
        simp [withOnly]
      have refused : (attempt s y).2 = false := by
        cases verdict : (attempt s y).2 with
        | false => rfl
        | true =>
          rw [split, pass_accepted verdict] at own
          have inRest := (pass_kept_sublist _ _ _).subset own
          exact absurd (List.mem_filter.mp inRest).1 fresh
      refine ⟨refused, ih distinct fun x member isExtra => ?_⟩
      have other : y ≠ x := fun same => fresh (same ▸ member)
      have skipped : withOnly extra x (y :: rest) = withOnly extra x rest := by
        simp [withOnly, chosen, other]
      have still := kept x (List.mem_cons_of_mem y member) isExtra
      rwa [skipped] at still
    | false =>
      refine ih distinct fun x member isExtra => ?_
      have other : x ≠ y := fun same => fresh (same ▸ member)
      have still := kept x (List.mem_cons_of_mem y member) isExtra
      have split : withOnly extra x (y :: rest) = y :: withOnly extra x rest := by
        simp [withOnly, chosen]
      rw [split] at still
      cases verdict : (attempt s y).2 with
      | true => rwa [pass_accepted verdict] at still
      | false =>
        rw [pass_refused verdict] at still
        exact (List.mem_cons.mp still).resolve_left other

variable (equiv : Equivalence R)
  (step : ∀ s t x, R s t → (attempt s x).2 = (attempt t x).2 ∧ R (attempt s x).1 (attempt t x).1)
  (inert : ∀ s x, (attempt s x).2 = false → R (attempt s x).1 s)
include equiv step inert

omit [DecidableEq ι] in
/-- A pass over everything and one over a part that leaves out some extras go
through related states and keep the same items of that part. -/
private theorem pass_extras {keep : ι → Bool} {pending : List ι}
    (all : ∀ x, extra x = false → keep x = true) (spurned : Spurned attempt extra s pending)
    (first : R t s) (second : R u s) :
    R (pass attempt t pending).1 (pass attempt u (pending.filter keep)).1 ∧
      (pass attempt u (pending.filter keep)).2 = (pass attempt t pending).2.filter keep := by
  induction pending generalizing s t u with
  | nil => exact ⟨equiv.trans first (equiv.symm second), rfl⟩
  | cons x rest ih =>
    have same := step t u x (equiv.trans first (equiv.symm second))
    unfold Spurned at spurned
    cases chosen : extra x with
    | true =>
      simp only [chosen, ↓reduceIte] at spurned
      have refused : (attempt t x).2 = false := (step t s x first).1.trans spurned.1
      have refused' : (attempt u x).2 = false := same.1 ▸ refused
      rw [pass_refused refused]
      have next := equiv.trans (inert t x refused) first
      cases part : keep x with
      | true =>
        have rest := ih spurned.2 next (equiv.trans (inert u x refused') second)
        rw [List.filter_cons_of_pos part, pass_refused refused']
        exact ⟨rest.1, by simp [part, rest.2]⟩
      | false =>
        have rest := ih spurned.2 next second
        rw [List.filter_cons_of_neg (by simp [part])]
        exact ⟨rest.1, by simp [part, rest.2]⟩
    | false =>
      simp only [chosen, Bool.false_eq_true, ↓reduceIte] at spurned
      have part := all x chosen
      have rest := ih spurned (step t s x first).2 (step u s x second).2
      rw [List.filter_cons_of_pos part]
      cases verdict : (attempt t x).2 with
      | true =>
        rw [pass_accepted verdict, pass_accepted (same.1 ▸ verdict)]
        exact rest
      | false =>
        rw [pass_refused verdict, pass_refused (same.1 ▸ verdict)]
        exact ⟨rest.1, by simp [part, rest.2]⟩

omit [DecidableEq ι] in
private theorem pass_extras_kept {pending : List ι} (spurned : Spurned attempt extra s pending)
    (related : R t s) : (pass attempt t pending).2.filter extra = pending.filter extra := by
  induction pending generalizing s t with
  | nil => rfl
  | cons x rest ih =>
    unfold Spurned at spurned
    cases chosen : extra x with
    | true =>
      simp only [chosen, ↓reduceIte] at spurned
      have refused : (attempt t x).2 = false := (step t s x related).1.trans spurned.1
      rw [pass_refused refused]
      simp [chosen, ih spurned.2 (equiv.trans (inert t x refused) related)]
    | false =>
      simp only [chosen, Bool.false_eq_true, ↓reduceIte] at spurned
      have rest := ih spurned (step t s x related).2
      cases verdict : (attempt t x).2 with
      | true => rw [pass_accepted verdict]; simpa [chosen] using rest
      | false => rw [pass_refused verdict]; simpa [chosen] using rest

omit [DecidableEq ι] equiv step inert in
private theorem length_parts (extra : ι → Bool) (pending : List ι) :
    (without extra pending).length + (pending.filter extra).length = pending.length := by
  have split := List.length_eq_length_filter_add (l := pending) extra
  simp only [without]
  omega

omit equiv step inert in
private theorem without_withOnly (extra : ι → Bool) (x : ι) (pending : List ι) :
    without extra (withOnly extra x pending) = without extra pending := by
  simp only [without, withOnly, List.filter_filter]
  congr 1
  funext y
  cases extra y <;> simp

omit equiv step inert in
private theorem filter_withOnly (extra : ι → Bool) (x : ι) (pending : List ι) :
    (withOnly extra x pending).filter extra = (pending.filter extra).filter (· == x) := by
  simp only [withOnly, List.filter_filter]
  congr 1
  funext y
  cases extra y <;> simp

/-- Items that the loop refuses one at a time change nothing when they are all
there at once. -/
theorem settle_extras {pending : List ι} (distinct : pending.Nodup) (related : R t s)
    (kept : ∀ x ∈ pending, extra x = true →
      x ∈ (settle attempt s (withOnly extra x pending)).2) :
    R (settle attempt t pending).1 (settle attempt s (without extra pending)).1 := by
  induction size : pending.length using Nat.strongRecOn generalizing pending s t with
  | ind size ih =>
    have spurned := spurned_of_kept distinct fun x member isExtra =>
      settle_kept_subset_pass _ _ (kept x member isExtra)
    have base : R (pass attempt t pending).1 (pass attempt s (without extra pending)).1 ∧
        (pass attempt s (without extra pending)).2 = without extra (pass attempt t pending).2 :=
      pass_extras equiv step inert (by simp) spurned related (equiv.refl s)
    have single (x : ι) : R (pass attempt t pending).1 (pass attempt s (withOnly extra x pending)).1 ∧
        (pass attempt s (withOnly extra x pending)).2 = withOnly extra x (pass attempt t pending).2 :=
      pass_extras equiv step inert (by simp +contextual) spurned related (equiv.refl s)
    have extras := pass_extras_kept equiv step inert spurned related
    have parts := length_parts extra pending
    have partsKept := length_parts extra (pass attempt t pending).2
    rw [extras, ← base.2] at partsKept
    by_cases same : (pass attempt s (without extra pending)).2.length = (without extra pending).length
    · rw [settle_stuck same, settle_stuck (by omega)]
      exact base.1
    · rw [settle_progress same, settle_progress (s := t) (by omega), base.2]
      have fewer := (pass_kept_sublist attempt t pending).length_le
      refine ih _ (by omega) ((pass_kept_sublist attempt t pending).nodup distinct) base.1 ?_ rfl
      intro x member isExtra
      obtain ⟨near, list⟩ := single x
      have more : (pass attempt s (withOnly extra x pending)).2.length ≠
          (withOnly extra x pending).length := by
        have before := length_parts extra (withOnly extra x pending)
        have after := length_parts extra (withOnly extra x (pass attempt t pending).2)
        rw [without_withOnly, filter_withOnly] at before after
        rw [extras, ← base.2] at after
        rw [list]
        omega
      have left := kept x ((pass_kept_sublist attempt t pending).subset member) isExtra
      rw [settle_progress more, list] at left
      have moved := settle_simulation (withOnly extra x (pass attempt t pending).2)
        (fun s t x _ => step s t x) (equiv.trans (equiv.symm near) base.1)
      rwa [moved.2] at left

end Extras

/-! ### Batches of one date

A list in date order is applied batch by batch, the items of one date together
and to the end before the next date begins. -/

section Batches
variable [DecidableEq δ]

/-- Puts an item in the open batch, settling that batch first if its date is
another one. -/
def batchStep (attempt : σ → ι → σ × Bool) (date : ι → δ) (acc : σ × List ι) (x : ι) : σ × List ι :=
  match acc.2 with
  | [] => (acc.1, [x])
  | first :: _ =>
    if date first ≠ date x then ((settle attempt acc.1 acc.2).1, [x])
    else (acc.1, acc.2 ++ [x])

def runBatches (attempt : σ → ι → σ × Bool) (date : ι → δ) (s : σ) (items : List ι) : σ :=
  let acc := items.foldl (batchStep attempt date) (s, [])
  (settle attempt acc.1 acc.2).1

/-- The same, reading the dates off a list of them. -/
def runDates (attempt : σ → ι → σ × Bool) (date : ι → δ) (dates : List δ) (s : σ) (items : List ι) : σ :=
  dates.foldl (fun s d => (settle attempt s (items.filter fun x => date x = d)).1) s

variable {attempt : σ → ι → σ × Bool} {date : ι → δ}

private theorem foldl_batch (batch front : List ι) (s : σ) (d : δ)
    (own : ∀ x ∈ front ++ batch, date x = d) :
    batch.foldl (batchStep attempt date) (s, front) = (s, front ++ batch) := by
  induction batch generalizing front with
  | nil => simp
  | cons x rest ih =>
    have next : batchStep attempt date (s, front) x = (s, front ++ [x]) := by
      cases front with
      | nil => rfl
      | cons first more =>
        have same : date first = date x := by rw [own first (by simp), own x (by simp)]
        simp [batchStep, same]
    rw [List.foldl_cons, next, ih (front ++ [x]) (by simpa using own)]
    simp

private theorem settle_then_foldl (batch rest : List ι) (s : σ) (d : δ)
    (own : ∀ x ∈ batch, date x = d) (others : ∀ x ∈ rest, date x ≠ d) :
    (settle attempt (rest.foldl (batchStep attempt date) (s, batch)).1
      (rest.foldl (batchStep attempt date) (s, batch)).2).1 =
      runBatches attempt date (settle attempt s batch).1 rest := by
  cases rest with
  | nil => simp [runBatches]
  | cons y ys =>
    have step : batchStep attempt date (s, batch) y =
        batchStep attempt date ((settle attempt s batch).1, []) y := by
      cases batch with
      | nil => simp [batchStep]
      | cons first more =>
        have differ : date first ≠ date y := by
          rw [own first List.mem_cons_self]
          exact (others y List.mem_cons_self).symm
        simp [batchStep, differ]
    simp only [runBatches, List.foldl_cons, step]

private theorem runBatches_append (batch rest : List ι) (s : σ) (d : δ)
    (own : ∀ x ∈ batch, date x = d) (others : ∀ x ∈ rest, date x ≠ d) :
    runBatches attempt date s (batch ++ rest) =
      runBatches attempt date (settle attempt s batch).1 rest := by
  rw [← settle_then_foldl batch rest s d own others]
  simp only [runBatches, List.foldl_append]
  rw [foldl_batch batch [] s d (by simpa using own)]
  rfl

theorem runDates_congr {dates : List δ} {items others : List ι}
    (same : ∀ d ∈ dates, (items.filter fun x => date x = d) = others.filter fun x => date x = d)
    (s : σ) : runDates attempt date dates s items = runDates attempt date dates s others := by
  induction dates generalizing s with
  | nil => rfl
  | cons d rest ih =>
    simp only [runDates, List.foldl_cons, same d List.mem_cons_self]
    exact ih (fun e member => same e (List.mem_cons_of_mem d member)) _

theorem runDates_append (front back : List δ) (s : σ) (items : List ι) :
    runDates attempt date (front ++ back) s items =
      runDates attempt date back (runDates attempt date front s items) items := by
  simp [runDates]

/-- Dates on which nothing is due. -/
theorem runDates_idle {dates : List δ} {items : List ι} (idle : ∀ x ∈ items, date x ∉ dates) (s : σ) :
    runDates attempt date dates s items = s := by
  induction dates generalizing s with
  | nil => rfl
  | cons d rest ih =>
    have none : (items.filter fun x => date x = d) = [] := by
      refine List.filter_eq_nil_iff.mpr fun x member due => idle x member ?_
      simp [of_decide_eq_true due]
    simp only [runDates, List.foldl_cons, none, settle_nil]
    exact ih (fun x member due => idle x member (List.mem_cons_of_mem d due)) s

theorem runDates_invariant {Inv : σ → Prop} {items : List ι} {dates : List δ}
    (step : ∀ s, ∀ x ∈ items, Inv s → Inv (attempt s x).1) (initial : Inv s) :
    Inv (runDates attempt date dates s items) := by
  induction dates generalizing s with
  | nil => exact initial
  | cons d rest ih =>
    refine ih (settle_invariant (fun s x member => step s x ?_) initial)
    exact (List.mem_filter.mp member).1

theorem runDates_simulation {other : τ → ι → τ × Bool} {R : σ → τ → Prop} {items : List ι}
    {dates : List δ}
    (step : ∀ s t, ∀ x ∈ items, R s t →
      (attempt s x).2 = (other t x).2 ∧ R (attempt s x).1 (other t x).1) (related : R s t) :
    R (runDates attempt date dates s items) (runDates other date dates t items) := by
  induction dates generalizing s t with
  | nil => exact related
  | cons d rest ih =>
    refine ih (settle_simulation _ (fun s t x member => step s t x ?_) related).1
    exact (List.mem_filter.mp member).1

section Extras
variable [DecidableEq ι] {R : σ → σ → Prop} {extra : ι → Bool} {Done : σ → ι → Prop}

omit [DecidableEq δ] in
private theorem withOnly_withOnly (extra : ι → Bool) (x : ι) (items : List ι) :
    withOnly extra x (withOnly extra x items) = withOnly extra x items := by
  simp [withOnly, List.filter_filter]

/-- Items that a whole run refuses one at a time change nothing when they are
all there at once. -/
theorem runDates_extras (equiv : Equivalence R)
    (step : ∀ s t x, R s t → (attempt s x).2 = (attempt t x).2 ∧ R (attempt s x).1 (attempt t x).1)
    (inert : ∀ s x, (attempt s x).2 = false → R (attempt s x).1 s)
    (mark : ∀ s x, (attempt s x).2 = true → Done (attempt s x).1 x)
    (keeps : ∀ s x y, Done s x → Done (attempt s y).1 x)
    {items : List ι} {dates : List δ} (distinct : items.Nodup) (related : R t s)
    (refused : ∀ x ∈ items, extra x = true → ∃ u, R u s ∧
      ¬ Done (runDates attempt date dates u (withOnly extra x items)) x) :
    R (runDates attempt date dates t items)
      (runDates attempt date dates s (without extra items)) := by
  induction dates generalizing s t with
  | nil => exact related
  | cons d rest ih =>
    let batch := items.filter fun x => date x = d
    have base : ((without extra items).filter fun x => date x = d) = without extra batch := by
      simp only [without, batch, List.filter_filter, Bool.and_comm]
    have single (x : ι) : ((withOnly extra x items).filter fun x => date x = d) =
        withOnly extra x batch := by
      simp only [withOnly, batch, List.filter_filter, Bool.and_comm]
    have left : ∀ x ∈ batch, extra x = true → ∃ u, R u s ∧
        x ∈ (settle attempt u (withOnly extra x batch)).2 := by
      intro x member isExtra
      obtain ⟨u, near, never⟩ := refused x (List.mem_filter.mp member).1 isExtra
      refine ⟨u, near, ?_⟩
      have present : x ∈ withOnly extra x batch := by simp [withOnly, member]
      rcases settle_marks (s := u) mark keeps present with kept | done
      · exact kept
      · refine absurd ?_ never
        simp only [runDates, List.foldl_cons, single]
        exact runDates_invariant (fun s y _ => keeps s x y) done
    have kept : ∀ x ∈ batch, extra x = true → x ∈ (settle attempt s (withOnly extra x batch)).2 := by
      intro x member isExtra
      obtain ⟨u, near, inLeft⟩ := left x member isExtra
      have moved := settle_simulation (withOnly extra x batch)
        (fun s t x _ => step s t x) near
      rwa [moved.2] at inLeft
    have together := settle_extras equiv step inert (distinct.filter _) related kept
    simp only [runDates, List.foldl_cons, base]
    refine ih together ?_
    intro x member isExtra
    obtain ⟨u, near, never⟩ := refused x member isExtra
    simp only [runDates, List.foldl_cons, single] at never
    refine ⟨_, ?_, never⟩
    have keptAlone : ∀ y ∈ withOnly extra x batch, extra y = true →
        y ∈ (settle attempt s (withOnly extra y (withOnly extra x batch))).2 := by
      intro y present isExtra'
      have same : y = x := by simpa [withOnly, isExtra'] using (List.mem_filter.mp present).2
      subst y
      rw [withOnly_withOnly]
      exact kept x (List.mem_filter.mp present).1 isExtra'
    have distinctAlone : (withOnly extra x batch).Nodup := (distinct.filter _).filter _
    have alone := settle_extras equiv step inert distinctAlone near keptAlone
    rwa [without_withOnly] at alone

end Extras

end Batches

section Ordered
variable [LinearOrder δ] {attempt : σ → ι → σ × Bool} {date : ι → δ}

private theorem filter_least {items : List ι} {d : δ}
    (sorted : items.Pairwise fun x y => date x ≤ date y) (least : ∀ x ∈ items, d ≤ date x) :
    (items.filter fun x => date x = d) ++ (items.filter fun x => date x ≠ d) = items := by
  induction items with
  | nil => rfl
  | cons x rest ih =>
    obtain ⟨first, sorted⟩ := List.pairwise_cons.mp sorted
    by_cases same : date x = d
    · have tail := ih sorted fun y member => least y (List.mem_cons_of_mem x member)
      simpa [same] using tail
    · have none : (rest.filter fun y => date y = d) = [] := by
        apply List.filter_eq_nil_iff.mpr
        intro y member
        have above := lt_of_le_of_ne (least x List.mem_cons_self) (Ne.symm same)
        simpa using (lt_of_lt_of_le above (first y member)).ne'
      have all : (rest.filter fun y => date y ≠ d) = rest := by
        apply List.filter_eq_self.mpr
        intro y member
        simpa using List.filter_eq_nil_iff.mp none y member
      rw [List.filter_cons_of_neg (by simpa using same), List.filter_cons_of_pos (by simpa using same),
        none, all]
      rfl

/-- On a list in date order the batches are those of its dates, listed in order;
a date nothing has adds nothing. -/
theorem runBatches_eq_runDates {items : List ι} {dates : List δ}
    (sorted : items.Pairwise fun x y => date x ≤ date y) (increasing : dates.Pairwise (· < ·))
    (covers : ∀ x ∈ items, date x ∈ dates) (s : σ) :
    runBatches attempt date s items = runDates attempt date dates s items := by
  induction dates generalizing items s with
  | nil =>
    have none : items = [] := List.eq_nil_iff_forall_not_mem.mpr fun x member => by
      simpa using covers x member
    simp [none, runBatches, runDates]
  | cons d rest ih =>
    obtain ⟨first, increasing⟩ := List.pairwise_cons.mp increasing
    have least : ∀ x ∈ items, d ≤ date x := by
      intro x member
      rcases List.mem_cons.mp (covers x member) with same | later
      · exact same.ge
      · exact (first _ later).le
    have later : ∀ x ∈ items.filter fun x => date x ≠ d, date x ∈ rest := by
      intro x member
      obtain ⟨present, differ⟩ := List.mem_filter.mp member
      exact (List.mem_cons.mp (covers x present)).resolve_left (by simpa using differ)
    calc runBatches attempt date s items
        = runBatches attempt date s
            ((items.filter fun x => date x = d) ++ items.filter fun x => date x ≠ d) := by
          rw [filter_least sorted least]
      _ = runBatches attempt date (settle attempt s (items.filter fun x => date x = d)).1
            (items.filter fun x => date x ≠ d) :=
          runBatches_append _ _ _ d (by simp) (by simp)
      _ = runDates attempt date rest (settle attempt s (items.filter fun x => date x = d)).1
            (items.filter fun x => date x ≠ d) := ih (sorted.filter _) increasing later _
      _ = runDates attempt date (d :: rest) s items := by
          refine runDates_congr ?_ _
          intro e member
          rw [List.filter_filter]
          congr 1
          funext x
          by_cases same : date x = e
          · simp [same, (first e member).ne']
          · simp [same]

end Ordered

end HitEnter.Lib.Rounds
