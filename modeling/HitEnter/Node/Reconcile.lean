import HitEnter.Group.Readers
import HitEnter.Node.Query
import HitEnter.Wire.Revocation

/-! What two nodes reconcile over. An event left out of the set is offered to nobody:
a device revocation, which has no expiration, is left out as if it had expired. -/

namespace HitEnter.Node

open Wire HitEnter.Group

section Sets
variable [NostrEvents]

/-- Everything `reader` may see that matches `filter`: what a `REQ` is answered with. -/
def visible (store : Store) (gs : Groups) (reader : PublicKey) (filter : Filter) (now : Timestamp) : List Event :=
  (store.query filter).filter fun ev => gs.mayRead reader ev now

/-- The set a negentropy session with `peer` reconciles over: what it may see, minus
the two parties' own bindings and minus expired ones. -/
def reconcilable (store : Store) (gs : Groups) (peer : PublicKey) (filter : Filter) (now : Timestamp) : List Event :=
  (visible store gs peer filter now).filter fun ev =>
    ev.kind != deviceBinding ||
      (ev.pubkey != gs.me && ev.pubkey != peer && (NostrEvents.expiration ev.tags).any (now < ·))

variable {store : Store} {gs : Groups} {peer : PublicKey} {filter : Filter} {now : Timestamp} {ev : Event}

theorem mem_reconcilable : ev ∈ reconcilable store gs peer filter now ↔
    ev ∈ store.query filter ∧ gs.mayRead peer ev now = true ∧
      (ev.kind = deviceBinding → ev.pubkey ≠ gs.me ∧ ev.pubkey ≠ peer ∧ expired ev now = false) := by
  have running : (NostrEvents.expiration ev.tags).any (now < ·) = !expired ev now := by
    unfold expired
    cases NostrEvents.expiration ev.tags with
    | none => rfl
    | some date => simp [← not_le]
  simp only [reconcilable, visible, List.mem_filter, running, Bool.or_eq_true, bne_iff_ne, Bool.and_eq_true,
    Bool.not_eq_eq_eq_not, Bool.not_true, and_assoc]
  refine and_congr_right fun _ => and_congr_right fun _ => ?_
  rw [← imp_iff_not_or]

/-- Whoever signed it, a revocation without an expiration is offered to nobody. -/
theorem revocation_not_reconcilable (binding : ev.kind = deviceBinding)
    (undated : NostrEvents.expiration ev.tags = none) : ev ∉ reconcilable store gs peer filter now := by
  intro member
  have alive := ((mem_reconcilable.mp member).2.2 binding).2.2
  simp [expired, undated] at alive

variable [Devices]

/-- The binding by which `device` speaks for `person`. -/
def bindsTo (ev : Event) (person : PublicKey) (device : EndpointId) : Bool :=
  ev.kind == deviceBinding && !isRevoked ev && ev.pubkey == person &&
    Nostr.identifier ev.tags == some (Devices.toText device)

/-- What the set owes the peer: everything it may read, except bindings that have
expired and those of the two devices that are connected. -/
def owed (gs : Groups) (peer : PublicKey) (filter : Filter) (mine theirs : EndpointId) (now : Timestamp)
    (ev : Event) : Bool :=
  filter.matchEvent ev && gs.mayRead peer ev now &&
    !(ev.kind == deviceBinding && !isRevoked ev && expired ev now) && !bindsTo ev gs.me mine && !bindsTo ev peer theirs

/-- The set has all it owes if and only if, of what it owes, the query reaches
everything, no revocation is without a running expiration, and no binding or revocation
is of the node's own person or of the peer. -/
theorem reconcilable_owed (mine theirs : EndpointId) :
    (∀ ev ∈ store.events, owed gs peer filter mine theirs now ev = true →
      ev ∈ reconcilable store gs peer filter now) ↔
    ∀ ev ∈ store.events, owed gs peer filter mine theirs now ev = true →
      filter.selects ev = true ∧ store.reaches filter ev = true ∧
        (ev.kind = deviceBinding → (isRevoked ev = true → expired ev now = false) ∧
          ev.pubkey ≠ gs.me ∧ ev.pubkey ≠ peer) := by
  refine forall_congr' fun ev => forall_congr' fun held => forall_congr' fun due => ?_
  have parts := due
  simp only [owed, Bool.and_eq_true] at parts
  obtain ⟨⟨⟨⟨found, reads⟩, current⟩, _⟩, _⟩ := parts
  have plain : filter.search = none := by
    simp only [Filter.matchEvent, Bool.and_eq_true, Option.isNone_iff_eq_none] at found
    exact found.1.1.1.1.1.1
  have live : ev.kind = deviceBinding → isRevoked ev = false → expired ev now = false := by
    intro binding bound
    simpa [binding, bound] using current
  rw [mem_reconcilable, Store.mem_query]
  constructor
  · rintro ⟨⟨_, _, selected, reached⟩, _, binding⟩
    refine ⟨selected, reached, fun isOne => ?_⟩
    obtain ⟨own, other, alive⟩ := binding isOne
    exact ⟨fun _ => alive, own, other⟩
  · rintro ⟨selected, reached, binding⟩
    refine ⟨⟨held, plain, selected, reached⟩, reads, fun isOne => ?_⟩
    obtain ⟨dated, own, other⟩ := binding isOne
    refine ⟨own, other, ?_⟩
    cases revoked : isRevoked ev with
    | true => exact dated revoked
    | false => exact live isOne revoked

end Sets

/-- A node of somebody else's that carries the club, with the guest's lost laptop. -/
def carriersGroups (s : GroupState) : Groups := { ownersGroups s with me := caller }

def lostLaptop : Store where
  events := [signRevocation guest laptop 110]
  ids := List.nodup_singleton _

/-- The owner, who shares the club with the guest, is not offered the revocation of
the guest's laptop. -/
theorem lostLaptop_withheld : ∃ s, GroupState.fold club youngClub = some s ∧
    (carriersGroups s).shareAGroup founder guest = true ∧
    isRevoked (signRevocation guest laptop 110) = true ∧
    owed (carriersGroups s) founder {} ⟨8⟩ ⟨9⟩ 200 (signRevocation guest laptop 110) = true ∧
    signRevocation guest laptop 110 ∈ lostLaptop.events ∧
    signRevocation guest laptop 110 ∉ reconcilable lostLaptop (carriersGroups s) founder {} 200 := by
  have checked : ((GroupState.fold club youngClub).any fun s =>
      (carriersGroups s).shareAGroup founder guest &&
        owed (carriersGroups s) founder {} ⟨8⟩ ⟨9⟩ 200 (signRevocation guest laptop 110)) = true := by
    decide +kernel
  obtain ⟨s, folds, passes⟩ := (Option.any_eq_true _ _).mp checked
  rw [Bool.and_eq_true] at passes
  exact ⟨s, folds, passes.1, by decide, passes.2, List.mem_singleton_self _,
    revocation_not_reconcilable rfl (by decide +kernel)⟩

end HitEnter.Node
