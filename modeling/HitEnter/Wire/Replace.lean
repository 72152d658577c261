import HitEnter.Wire.Basic
import HitEnter.Lib.KeepBest

/-! Which events replace which, in one place: the store, the fold and the
binding book all decide replacement by `replaces`. -/

namespace HitEnter.Wire

open Lib.KeepBest

/-- A device binding that withdraws itself. -/
def isRevoked (event : Event) : Bool := event.tags.any fun tag => tag.head? == some "revoked"

/-- Where an event lives, by its kind. -/
inductive Slot where
  | regular
  | replaceable
  | addressable (d : String)
  | ephemeral
deriving DecidableEq

def slot [Nostr] (event : Event) : Slot :=
  if event.kind = 0 ∨ event.kind = 3 ∨ (10000 ≤ event.kind ∧ event.kind < 20000) then .replaceable
  else if 20000 ≤ event.kind ∧ event.kind < 30000 then .ephemeral
  else if 30000 ≤ event.kind ∧ event.kind < 40000 then
    .addressable ((Nostr.identifier event.tags).getD "")
  else .regular

/-- Rust's order on `Option<u64>`: nothing is below everything. -/
def seqBelow : Option UInt64 → Option UInt64 → Bool
  | _, none => false
  | none, some _ => true
  | some a, some b => a < b

/-- Does `new` replace `current`, of the same slot? A group's state is ordered
by `seq` first; then the newer date wins, then (for device bindings) the
revocation, then the lower id. -/
def replaces (new current : Event) : Bool :=
  if stateKinds.contains new.kind ∧ new.kind = current.kind ∧ seqOf new ≠ seqOf current then
    seqBelow (seqOf current) (seqOf new)
  else if new.createdAt ≠ current.createdAt then
    current.createdAt < new.createdAt
  else if new.kind = deviceBinding ∧ current.kind = deviceBinding ∧
      isRevoked new ≠ isRevoked current then
    isRevoked new
  else
    new.id < current.id

/-- `seq` as a number, with "absent" below every present one. -/
private def seqRank (event : Event) : Nat :=
  if stateKinds.contains event.kind then (seqOf event).elim 0 (·.toNat + 1) else 0

private def revokedRank (event : Event) : Nat :=
  if event.kind = deviceBinding then (isRevoked event).toNat else 0

/-- What `replaces` compares, most significant first. -/
private def replaceKey (event : Event) : ℕ ×ₗ ℕ ×ₗ ℕ ×ₗ ℕᵒᵈ :=
  toLex (seqRank event, toLex (event.createdAt.toNat,
    toLex (revokedRank event, OrderDual.toDual event.id.toNat)))

private theorem seqBelow_iff (a b : Option UInt64) :
    seqBelow a b = true ↔ a.elim 0 (·.toNat + 1) < b.elim 0 (·.toNat + 1) := by
  cases a <;> cases b <;> simp [seqBelow, UInt64.lt_iff_toNat_lt]

private theorem seq_eq_iff (a b : Option UInt64) :
    a = b ↔ a.elim 0 (·.toNat + 1) = b.elim 0 (·.toNat + 1) := by
  cases a <;> cases b <;> simp [UInt64.toNat_inj]

/-- The part of `replaces` after the `seq`. -/
private theorem later_iff (a b : Event) :
    (if a.createdAt ≠ b.createdAt then decide (b.createdAt < a.createdAt)
      else if a.kind = deviceBinding ∧ b.kind = deviceBinding ∧ isRevoked a ≠ isRevoked b then
        isRevoked a
      else decide (a.id < b.id)) = true ↔
    b.createdAt.toNat < a.createdAt.toNat ∨ b.createdAt.toNat = a.createdAt.toNat ∧
      (if a.kind = deviceBinding ∧ b.kind = deviceBinding ∧ isRevoked a ≠ isRevoked b then
        isRevoked a = true else a.id.toNat < b.id.toNat) := by
  by_cases dates : a.createdAt = b.createdAt
  · simp only [dates, ne_eq, not_true_eq_false, ↓reduceIte, lt_irrefl, true_and, false_or]
    split
    · rfl
    · exact decide_eq_true_iff
  · have differ : a.createdAt.toNat ≠ b.createdAt.toNat := fun same =>
      dates (Timestamp.toNat_injective same)
    simp only [dates, ne_eq, not_false_eq_true, ↓reduceIte, decide_eq_true_eq, differ.symm, false_and,
      or_false]
    rfl

private theorem replaces_iff (same : new.kind = current.kind) :
    replaces new current = true ↔ replaceKey current < replaceKey new := by
  have seqs := seq_eq_iff (seqOf new) (seqOf current)
  have order := seqBelow_iff (seqOf current) (seqOf new)
  have bits : isRevoked new ≠ isRevoked current → (isRevoked new = true ↔
      (isRevoked current).toNat < (isRevoked new).toNat) := by
    cases isRevoked new <;> cases isRevoked current <;> simp
  simp only [replaceKey, Prod.Lex.toLex_lt_toLex, OrderDual.toDual_lt_toDual]
  unfold replaces
  split
  · rename_i apart
    obtain ⟨state, _, differ⟩ := apart
    have ranks : seqRank current ≠ seqRank new := by
      simp only [seqRank, ← same, state, ↓reduceIte]
      exact fun equal => differ (seqs.mpr equal.symm)
    simp only [ranks, false_and, or_false]
    simp only [seqRank, ← same, state, ↓reduceIte]
    exact order
  · rename_i alike
    have ranks : seqRank current = seqRank new := by
      unfold seqRank
      by_cases state : stateKinds.contains new.kind = true
      · have equal : seqOf new = seqOf current := by
          by_contra differ
          exact alike ⟨state, same, differ⟩
        simp [← same, equal]
      · rw [← same, if_neg state, if_neg state]
    rw [later_iff]
    simp only [ranks, lt_irrefl, true_and, false_or]
    refine or_congr Iff.rfl (and_congr Iff.rfl ?_)
    by_cases binding : current.kind = deviceBinding
    · by_cases revoked : isRevoked new = isRevoked current
      · simp [revokedRank, binding, same, revoked]
      · have apart : (isRevoked current).toNat ≠ (isRevoked new).toNat := by
          intro equal
          exact revoked (by simpa using congrArg (· == 1) equal.symm)
        simp [revokedRank, binding, same, revoked, bits revoked, apart]
    · simp [revokedRank, binding, same]

/-- Of two state events of a kind, the higher `seq` wins. -/
theorem replaces_of_seq_lt {a b : UInt64} (state : stateKinds.contains new.kind = true)
    (same : new.kind = current.kind) (ours : seqOf new = some a) (theirs : seqOf current = some b)
    (lower : b < a) : replaces new current = true ∧ replaces current new = false := by
  have differ : b ≠ a := UInt64.ne_of_lt lower
  have listed : new.kind ∈ stateKinds := by simpa using state
  simp [replaces, ← same, listed, ours, theirs, differ, differ.symm, seqBelow, lower, UInt64.le_of_lt lower]

theorem replaces_irrefl (event : Event) : replaces event event = false := by
  have strict := (replaces_iff (rfl : event.kind = event.kind)).not.mpr (lt_irrefl _)
  simpa using strict

theorem replaces_trans (first : a.kind = b.kind) (second : b.kind = c.kind)
    (upper : replaces a b = true) (lower : replaces b c = true) : replaces a c = true := by
  rw [replaces_iff first] at upper
  rw [replaces_iff second] at lower
  rw [replaces_iff (first.trans second)]
  exact lower.trans upper

theorem replaces_total (same : a.kind = b.kind) (differ : a.id ≠ b.id) :
    replaces a b = true ∨ replaces b a = true := by
  rw [replaces_iff same, replaces_iff same.symm]
  rcases lt_trichotomy (replaceKey a) (replaceKey b) with below | equal | above
  · exact .inr below
  · simp only [replaceKey, EmbeddingLike.apply_eq_iff_eq, Prod.mk.injEq] at equal
    exact absurd (EventId.toNat_injective equal.2.2.2) differ
  · exact .inl above

/-- On events of one kind with ids of their own, `replaces` picks a winner whatever
order it sees them in. -/
theorem replaces_strictTotalOn {events : List Event} (kind : Kind) (kinds : ∀ ev ∈ events, ev.kind = kind)
    (distinct : ∀ a ∈ events, ∀ b ∈ events, a.id = b.id → a = b) :
    StrictTotalOn replaces events where
  irrefl ev _ := replaces_irrefl ev
  trans a ha b hb c hc :=
    replaces_trans ((kinds a ha).trans (kinds b hb).symm) ((kinds b hb).trans (kinds c hc).symm)
  total a ha b hb differ := replaces_total ((kinds a ha).trans (kinds b hb).symm)
    fun same => differ (distinct a ha b hb same)

end HitEnter.Wire
