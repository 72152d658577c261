import HitEnter.Wire.Bindings

/-! The book of bindings, and what it is for: whoever it lets in on a device holds a
binding of that device dated after every revocation of it that the book has taken. -/

namespace HitEnter.Wire

open Lib.KeepBest

/-- A person and the text of a device. -/
abbrev BindingKey := PublicKey ×ₗ String

instance : Std.TransOrd BindingKey := inferInstance

instance : Std.LawfulEqOrd BindingKey := ⟨compare_eq_iff_eq.mp⟩

theorem nothing_booked {key : BindingKey} {event : Event} : (∅ : BTreeMap BindingKey Event)[key]? ≠ some event := by
  simp

/-- The newest event of each person and device, revocations included. -/
structure BindingBook [Nostr] where
  newest : BTreeMap BindingKey Event
  keyed : ∀ (person : PublicKey) (device : String) (event : Event),
    newest[toLex (person, device)]? = some event →
      event.kind = deviceBinding ∧ event.pubkey = person ∧ Nostr.identifier event.tags = some device

/-- A book with nothing in it. -/
abbrev BindingBook.new [Nostr] : BindingBook where
  newest := ∅
  keyed _ _ _ found := absurd found nothing_booked

/-- What an insert did with an event. -/
inductive Inserted where
  | stored
  | stale
deriving DecidableEq

namespace BindingBook

section Book
variable [NostrEvents] [Devices]

private def put (book : BindingBook) {event : Event} {now : Timestamp} {deviceHex : String}
    (checked : Checked event now deviceHex) : BindingBook where
  newest := book.newest.insert (toLex (event.pubkey, deviceHex)) event
  keyed person device other found := by
    simp only [Std.ExtTreeMap.getElem?_insert, Std.LawfulEqCmp.compare_eq_iff_eq, EmbeddingLike.apply_eq_iff_eq,
      Prod.mk.injEq] at found
    split at found
    · rename_i same
      cases found
      exact ⟨checked.kind, same.1, same.2 ▸ checked.named⟩
    · exact book.keyed person device other found

/-- Stores a binding or revocation, however it arrived, unless what the book has of
its person and device is not replaced by it. -/
def insert (book : BindingBook) (event : Event) (now : Timestamp) : BindingBook × Except BindingError Inserted :=
  match checked : Parsed.check event now with
  | .error refusal => (book, .error refusal)
  | .ok parsed =>
    if (book.newest[toLex (event.pubkey, parsed.deviceHex)]?).any fun current => !replaces event current then
      (book, .ok .stale)
    else (book.put (Parsed.check_ok checked).1, .ok .stored)

/-- Who is at the other end of `conn`: the binding presented must hold on its own, and
the newest of its person and device too. -/
def authenticate (book : BindingBook) (presented : Event) (conn : EndpointId) (now : Timestamp) :
    BindingBook × Except BindingError PublicKey :=
  match verifyBindingAt presented conn now with
  | .error refusal => (book, .error refusal)
  | .ok person =>
    match book.insert presented now with
    | (book, .error refusal) => (book, .error refusal)
    | (book, .ok _) =>
      match book.newest[toLex (person, Devices.toText conn)]? with
      | none => (book, .error .superseded)
      | some newest =>
        if isRevoked newest then (book, .error .revoked) else (book, verifyBindingAt newest conn now)

/-- The devices `person` can be dialled at: unrevoked, unexpired. -/
def devicesOf (book : BindingBook) (person : PublicKey) (now : Timestamp) : List EndpointId :=
  ((book.newest.toList.filter fun entry => (ofLex entry.1).1 == person).filter fun entry =>
    !isRevoked entry.2 && !expired entry.2 now).filterMap fun entry => Devices.parse (ofLex entry.1).2

/-- The people `device` speaks for: unrevoked, unexpired. -/
def personsOf (book : BindingBook) (device : EndpointId) (now : Timestamp) : List PublicKey :=
  (book.newest.toList.filter fun entry =>
    (ofLex entry.1).2 == Devices.toText device && !isRevoked entry.2 && !expired entry.2 now).map fun entry =>
      (ofLex entry.1).1

/-- Refused and without a trace, or offered to the slot of its person and device. -/
theorem insert_cases (book : BindingBook) (event : Event) (now : Timestamp) :
    (∃ refusal, book.insert event now = (book, .error refusal)) ∨
      ∃ deviceHex outcome, Checked event now deviceHex ∧ (book.insert event now).2 = .ok outcome ∧
        ∀ key, (book.insert event now).1.newest[key]? =
          if key = toLex (event.pubkey, deviceHex) then offer replaces book.newest[key]? event
          else book.newest[key]? := by
  unfold insert
  split
  · exact .inl ⟨_, rfl⟩
  · rename_i parsed checked
    refine .inr ⟨parsed.deviceHex, ?_⟩
    split
    · rename_i beaten
      refine ⟨_, (Parsed.check_ok checked).1, rfl, fun key => ?_⟩
      split
      · rename_i same
        subst same
        obtain ⟨current, held, kept⟩ := (Option.any_eq_true _ _).mp beaten
        rw [Bool.not_eq_true'] at kept
        simp [held, offer, kept]
      · rfl
    · rename_i wins
      refine ⟨_, (Parsed.check_ok checked).1, rfl, fun key => ?_⟩
      simp only [put, Std.ExtTreeMap.getElem?_insert, Std.LawfulEqCmp.compare_eq_iff_eq]
      by_cases same : toLex (event.pubkey, parsed.deviceHex) = key
      · subst same
        rw [if_pos rfl, if_pos rfl]
        cases held : book.newest[toLex (event.pubkey, parsed.deviceHex)]? with
        | none => rfl
        | some current =>
          have stronger : replaces event current = true := by simpa [held] using wins
          simp [offer, stronger]
      · rw [if_neg same, if_neg (Ne.symm same)]

end Book

end BindingBook

end HitEnter.Wire
