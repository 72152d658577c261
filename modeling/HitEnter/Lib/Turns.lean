import Mathlib

/-! Tasks that take turns over one shared state, each a step at a time, under one lock that
any number of them may hold for reading, or one for writing. -/

namespace HitEnter.Lib.Turns

inductive Access where
  | read
  | write
deriving DecidableEq

/-- May two tasks hold these at once? -/
def allows : Option Access → Option Access → Bool
  | some .write, some _ => false
  | some .read, some .write => false
  | _, _ => true

theorem allows_comm (a b : Option Access) : allows a b = allows b a := by
  rcases a with _ | _ | _ <;> rcases b with _ | _ | _ <;> rfl

@[simp] theorem allows_none (a : Option Access) : allows a none = true := by
  rcases a with _ | _ | _ <;> rfl

theorem none_of_allows_write {a : Option Access} (allowed : allows (some .write) a = true) : a = none := by
  rcases a with _ | _ | _
  · rfl
  · cases allowed
  · cases allowed

/-- What a task does next, and what it holds; a step that takes the lock waits for it. -/
structure System (σ τ : Type) where
  next : τ → σ → σ × τ
  holds : τ → Option Access
  keeps : ∀ t s access, holds t = some access → holds (next t s).2 = some access ∨ holds (next t s).2 = none

structure World (σ τ : Type) where
  shared : σ
  tasks : List τ := []

namespace System

variable {σ τ : Type} (sys : System σ τ)

/-- Would `t` take the lock at odds with what others hold? -/
def waits (w : World σ τ) (t : τ) : Bool :=
  (sys.holds t).isNone && w.tasks.any fun other => !allows (sys.holds (sys.next t w.shared).2) (sys.holds other)

/-- The turn of the task at `i`. -/
def turn (w : World σ τ) (i : ℕ) : World σ τ :=
  match w.tasks[i]? with
  | none => w
  | some t =>
    if sys.waits w t then w
    else { shared := (sys.next t w.shared).1, tasks := w.tasks.set i (sys.next t w.shared).2 }

/-- No two tasks hold the lock at odds. -/
def Exclusive (tasks : List τ) : Prop :=
  ∀ (i j : ℕ) (t u : τ), i ≠ j → tasks[i]? = some t → tasks[j]? = some u → allows (sys.holds t) (sys.holds u) = true

variable {sys} {w : World σ τ} {i : ℕ}

theorem turn_cases (sys : System σ τ) (w : World σ τ) (i : ℕ) : sys.turn w i = w ∨
    ∃ t, w.tasks[i]? = some t ∧ sys.waits w t = false ∧
      sys.turn w i = { shared := (sys.next t w.shared).1, tasks := w.tasks.set i (sys.next t w.shared).2 } := by
  unfold turn
  cases here : w.tasks[i]? with
  | none => exact .inl rfl
  | some t =>
    cases waits : sys.waits w t with
    | true => exact .inl (by simp [waits])
    | false => exact .inr ⟨t, rfl, waits, by simp [waits]⟩

/-- A task after a turn is the one whose turn it was, or stands where it stood. -/
theorem mem_set {tasks : List τ} {t u : τ} (member : u ∈ tasks.set i t) :
    u = t ∨ ∃ j, j ≠ i ∧ tasks[j]? = some u := by
  obtain ⟨j, here⟩ := List.mem_iff_getElem?.mp member
  rw [List.getElem?_set] at here
  split at here
  · split at here
    · exact .inl (Option.some.inj here).symm
    · cases here
  · rename_i other
    exact .inr ⟨j, Ne.symm other, here⟩

/-- Nobody comes to hold the lock at odds with another. -/
theorem exclusive_turn (before : sys.Exclusive w.tasks) (i : ℕ) : sys.Exclusive (sys.turn w i).tasks := by
  rcases turn_cases sys w i with same | ⟨t, here, waits, turned⟩
  · rw [same]
    exact before
  · -- It held as much before, or the lock was free for it.
    have alone : ∀ j u, j ≠ i → w.tasks[j]? = some u →
        allows (sys.holds (sys.next t w.shared).2) (sys.holds u) = true := by
      intro j u apart listed
      cases held : sys.holds t with
      | none =>
        simp only [System.waits, held, Option.isNone_none, Bool.true_and, List.any_eq_false, Bool.not_eq_true',
          Bool.not_eq_false] at waits
        exact waits u (List.mem_of_getElem? listed)
      | some access =>
        rcases sys.keeps t w.shared access held with kept | released
        · rw [kept, ← held]
          exact before i j t u apart.symm here listed
        · rw [released, allows_comm, allows_none]
    rw [turned]
    intro a b u v apart first second
    simp only [List.getElem?_set] at first second
    split at first
    · rename_i ia
      subst ia
      rw [if_neg apart] at second
      split at first
      · cases first
        exact alone b v (Ne.symm apart) second
      · cases first
    · rename_i ia
      split at second
      · rename_i ib
        subst ib
        split at second
        · cases second
          rw [allows_comm]
          exact alone a u (Ne.symm ia) first
        · cases second
      · exact before a b u v apart first second

/-- A task that begins without the lock is at odds with nobody. -/
theorem exclusive_append {tasks : List τ} (before : sys.Exclusive tasks) {t : τ} (free : sys.holds t = none) :
    sys.Exclusive (tasks ++ [t]) := by
  have added : ∀ {j : ℕ} {u : τ}, (tasks ++ [t])[j]? = some u → tasks[j]? = some u ∨ u = t := by
    intro j u here
    rw [List.getElem?_append] at here
    split at here
    · exact .inl here
    · exact .inr (List.mem_singleton.mp (List.mem_of_getElem? here))
  intro a b u v apart first second
  rcases added first with old | rfl
  · rcases added second with old' | rfl
    · exact before a b u v apart old old'
    · rw [free, allows_none]
  · rw [free, allows_comm, allows_none]

/-- Whoever holds the lock for writing, the others hold nothing. -/
theorem Exclusive.alone {tasks : List τ} (exclusive : sys.Exclusive tasks) {t u : τ} {j : ℕ} (apart : j ≠ i)
    (here : tasks[i]? = some t) (writes : sys.holds t = some .write) (there : tasks[j]? = some u) :
    sys.holds u = none := by
  have allowed := exclusive i j t u apart.symm here there
  rw [writes] at allowed
  exact none_of_allows_write allowed

end System

end HitEnter.Lib.Turns
