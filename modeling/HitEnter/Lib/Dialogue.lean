import Mathlib

/-! Programs that change a state as they go and may stop with an error: what such a program
keeps of the state however it ends, and what it has done when it ends well. And the pieces,
of a given length at most, that a list is worked off in. -/

namespace HitEnter.Lib.Dialogue

variable {ε σ α β : Type}

/-- The state a program leaves, however it ended. -/
def stateOf : EStateM.Result ε σ α → σ
  | .ok _ s => s
  | .error _ s => s

/-- `P` holds afterwards if it held before, and what is given back has `Q`. -/
def Ensures (P : σ → Prop) (Q : α → Prop) (m : EStateM ε σ α) : Prop :=
  ∀ s, P s → P (stateOf (m s)) ∧ ∀ a t, m s = .ok a t → Q a

section Ensures
variable {P : σ → Prop} {Q : α → Prop} {R : β → Prop}

theorem Ensures.pure {a : α} (has : Q a) : Ensures P Q (pure a : EStateM ε σ α) := by
  refine fun s holds => ⟨holds, fun b t ends => ?_⟩
  cases ends
  exact has

theorem Ensures.throw (e : ε) : Ensures P Q (throw e : EStateM ε σ α) := fun _ holds => ⟨holds, nofun⟩

theorem Ensures.get : Ensures P (fun _ => True) (get : EStateM ε σ σ) := fun _ holds => ⟨holds, fun _ _ _ => trivial⟩

theorem Ensures.modify {f : σ → σ} (keeps : ∀ s, P s → P (f s)) :
    Ensures P (fun _ => True) (modify f : EStateM ε σ PUnit) := fun s holds => ⟨keeps s holds, fun _ _ _ => trivial⟩

theorem Ensures.weaken {Q' : α → Prop} {m : EStateM ε σ α} (first : Ensures P Q m) (weaker : ∀ a, Q a → Q' a) : Ensures P Q' m :=
  fun s holds => ⟨(first s holds).1, fun a t ends => weaker a ((first s holds).2 a t ends)⟩

theorem Ensures.bind {m : EStateM ε σ α} {f : α → EStateM ε σ β} (first : Ensures P Q m)
    (next : ∀ a, Q a → Ensures P R (f a)) : Ensures P R (m >>= f) := by
  intro s holds
  obtain ⟨between, given⟩ := first s holds
  change P (stateOf (EStateM.bind m f s)) ∧ ∀ b t, EStateM.bind m f s = .ok b t → R b
  unfold EStateM.bind
  cases ended : m s with
  | ok a t =>
    rw [ended] at between
    exact next a (given a t ended) t between
  | error e t =>
    rw [ended] at between
    exact ⟨between, nofun⟩

end Ensures

/-- From a state in `P` the program ends well with `Q`, or with an error in a state in `E`. -/
def Leaves (P : σ → Prop) (m : EStateM ε σ α) (Q : α → σ → Prop) (E : σ → Prop) : Prop :=
  ∀ s, P s → (∀ a t, m s = .ok a t → Q a t) ∧ ∀ e t, m s = .error e t → E t

section Leaves
variable {P : σ → Prop} {Q : α → σ → Prop} {R : β → σ → Prop} {E : σ → Prop}

theorem Leaves.pure {a : α} (has : ∀ s, P s → Q a s) : Leaves P (pure a : EStateM ε σ α) Q E := by
  refine fun s holds => ⟨fun b t ends => ?_, fun e t ends => ?_⟩
  · cases ends
    exact has s holds
  · cases ends

theorem Leaves.throw {e : ε} (left : ∀ s, P s → E s) : Leaves P (throw e : EStateM ε σ α) Q E := by
  refine fun s holds => ⟨fun b t ends => ?_, fun e t ends => ?_⟩
  · cases ends
  · cases ends
    exact left s holds

theorem Leaves.modify {f : σ → σ} {Q : PUnit → σ → Prop} (has : ∀ s, P s → Q ⟨⟩ (f s)) :
    Leaves P (modify f : EStateM ε σ PUnit) Q E := by
  refine fun s holds => ⟨fun b t ends => ?_, fun e t ends => ?_⟩
  · cases ends
    exact has s holds
  · cases ends

theorem Leaves.weaken {Q' : α → σ → Prop} {m : EStateM ε σ α} (first : Leaves P m Q E)
    (weaker : ∀ a s, Q a s → Q' a s) : Leaves P m Q' E :=
  fun s holds => ⟨fun a t ends => weaker a t ((first s holds).1 a t ends), (first s holds).2⟩

theorem Leaves.bind {m : EStateM ε σ α} {f : α → EStateM ε σ β} (first : Leaves P m Q E)
    (next : ∀ a, Leaves (Q a) (f a) R E) : Leaves P (m >>= f) R E := by
  intro s holds
  change (∀ b t, EStateM.bind m f s = .ok b t → R b t) ∧ ∀ e t, EStateM.bind m f s = .error e t → E t
  unfold EStateM.bind
  cases ended : m s with
  | ok a t => exact next a t ((first s holds).1 a t ended)
  | error e t =>
    refine ⟨fun b t' ends => ?_, fun e' t' ends => ?_⟩
    · cases ends
    · cases ends
      exact (first s holds).2 e t ended

/-- What is read is the state there is. -/
theorem Leaves.get_bind {f : σ → EStateM ε σ β} (next : ∀ seen, Leaves (fun s => P s ∧ seen = s) (f seen) R E) :
    Leaves P (get >>= f) R E :=
  fun s holds => next s s ⟨holds, rfl⟩

/-- However it ended. -/
theorem Leaves.stateOf {m : EStateM ε σ α} (leaves : Leaves P m (fun _ => E) E) {s : σ} (holds : P s) : E (stateOf (m s)) := by
  obtain ⟨well, failed⟩ := leaves s holds
  cases ended : m s with
  | ok a t => exact well a t ended
  | error e t => exact failed e t ended

end Leaves

/-- A program in two parts ends well if both do, one after the other. -/
theorem bind_eq_ok {m : EStateM ε σ α} {f : α → EStateM ε σ β} {s t : σ} {b : β} :
    (m >>= f) s = .ok b t ↔ ∃ a u, m s = .ok a u ∧ f a u = .ok b t := by
  change EStateM.bind m f s = .ok b t ↔ _
  unfold EStateM.bind
  cases m s with
  | ok a u => simp
  | error e u => simp

/-! ### Pieces -/

private def chunksFrom (n : ℕ) : ℕ → List α → List (List α)
  | 0, _ => []
  | _ + 1, [] => []
  | fuel + 1, x :: rest => (x :: rest).take n :: chunksFrom n fuel ((x :: rest).drop n)

/-- The list cut into pieces of `n`, the last of which may be shorter. -/
def chunks (n : ℕ) (items : List α) : List (List α) := chunksFrom n items.length items

private theorem chunksFrom_flatten {n : ℕ} (some_ : 0 < n) (fuel : ℕ) (items : List α) (enough : items.length ≤ fuel) :
    (chunksFrom n fuel items).flatten = items := by
  induction fuel generalizing items with
  | zero => exact (List.eq_nil_of_length_eq_zero (Nat.le_zero.mp enough)).symm
  | succ fuel ih =>
    cases items with
    | nil => rfl
    | cons x rest =>
      have shorter : ((x :: rest).drop n).length ≤ fuel := by
        rw [List.length_drop]
        omega
      rw [chunksFrom, List.flatten_cons, ih _ shorter, List.take_append_drop]

theorem chunks_flatten {n : ℕ} (some_ : 0 < n) (items : List α) : (chunks n items).flatten = items :=
  chunksFrom_flatten some_ items.length items (le_refl _)

theorem length_of_mem_chunks {n : ℕ} {items chunk : List α} (listed : chunk ∈ chunks n items) : chunk.length ≤ n := by
  unfold chunks at listed
  generalize items.length = fuel at listed
  induction fuel generalizing items with
  | zero => cases listed
  | succ fuel ih =>
    cases items with
    | nil => cases listed
    | cons x rest =>
      rcases List.mem_cons.mp listed with rfl | later
      · exact List.length_take_le _ _
      · exact ih later

end HitEnter.Lib.Dialogue
