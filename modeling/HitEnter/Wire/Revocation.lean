import HitEnter.Wire.BindingBook
import HitEnter.Wire.Plain

/-! Revocation safety. Through any calls, nothing the book has taken in replaces what it
holds; so what it holds, where it is no revocation, is dated after each one. -/

namespace HitEnter.Wire

open Lib.KeepBest

/-- A revocation that does not replace a binding is older than it. -/
private theorem revocation_older {revocation binding : Event} (revokes : isRevoked revocation = true)
    (binds : isRevoked binding = false) (kind : revocation.kind = deviceBinding) (kind' : binding.kind = deviceBinding)
    (weaker : replaces revocation binding = false) : revocation.createdAt < binding.createdAt := by
  have plain : deviceBinding ∉ stateKinds := by decide
  have tie : revocation.createdAt ≠ binding.createdAt := by
    intro same
    simp [replaces, kind, kind', same, revokes, binds, plain] at weaker
  simp only [replaces, kind, kind', List.contains_eq_mem, plain, decide_false, Bool.false_eq_true, false_and,
    ↓reduceIte, ne_eq, tie, not_false_eq_true, decide_eq_false_iff_not, not_lt] at weaker
  exact lt_of_le_of_ne weaker tie

section Runs
variable [NostrEvents] [Devices]

/-- What is asked of a book. -/
inductive Call where
  | insert (event : Event) (now : Timestamp)
  | authenticate (presented : Event) (conn : EndpointId) (now : Timestamp)

def Call.run (book : BindingBook) : Call → BindingBook
  | .insert event now => (book.insert event now).1
  | .authenticate presented conn now => (book.authenticate presented conn now).1

/-- The event that a call's insert accepts, if it comes to one. -/
def Call.accepts (book : BindingBook) : Call → Option Event
  | .insert event now => if (book.insert event now).2.isOk then some event else none
  | .authenticate presented conn now =>
    if (verifyBindingAt presented conn now).isOk && (book.insert presented now).2.isOk then some presented
    else none

/-- A new book after the calls. -/
def BindingBook.after (calls : List Call) : BindingBook := calls.foldl Call.run .new

/-- One of the calls accepted `event`. -/
def Accepted (calls : List Call) (event : Event) : Prop :=
  ∃ front call back, calls = front ++ call :: back ∧ call.accepts (BindingBook.after front) = some event

/-- What the book holds of the person and device of `event` is not replaced by it. -/
def BindingBook.Knows (book : BindingBook) (event : Event) : Prop :=
  event.kind = deviceBinding ∧ ∃ deviceHex held, Nostr.identifier event.tags = some deviceHex ∧
    book.newest[toLex (event.pubkey, deviceHex)]? = some held ∧ replaces event held = false

/-- `event` says that `conn` speaks for `person`, and holds. -/
structure Speaks (event : Event) (person : PublicKey) (conn : EndpointId) (now : Timestamp) : Prop where
  signed : NostrEvents.verify event = true
  author : event.pubkey = person
  named : Nostr.identifier event.tags = some (Devices.toText conn)
  unrevoked : isRevoked event = false
  alive : expired event now = false
  proven : proven event conn = true

theorem verifyBindingAt_ok {event : Event} {conn : EndpointId} {now : Timestamp} {person : PublicKey}
    (ok : verifyBindingAt event conn now = .ok person) : Speaks event person conn now := by
  simp only [verifyBindingAt, Lib.Checks.bind_eq_ok, Lib.Checks.refuseIf_eq_ok, bne_eq_false_iff_eq,
    Lib.Checks.pure_eq_ok] at ok
  obtain ⟨parsed, passes, _, device, _, live, author⟩ := ok
  obtain ⟨checked, revoked⟩ := Parsed.check_ok passes
  have unrevoked : isRevoked event = false := revoked.symm.trans live
  rw [device] at checked
  exact ⟨checked.signed, author, checked.named, unrevoked, checked.alive unrevoked,
    checked.proven unrevoked conn (Devices.parse_toText conn)⟩

namespace BindingBook

variable {book : BindingBook} {event : Event} {now : Timestamp}

/-- What the book knew it still knows: what replaces the event held is not replaced by
what did not replace that one. -/
theorem Knows.insert {earlier : Event} (knows : book.Knows earlier) : (book.insert event now).1.Knows earlier := by
  obtain ⟨kind, deviceHex, held, named, found, stronger⟩ := knows
  refine ⟨kind, deviceHex, ?_⟩
  rcases book.insert_cases event now with ⟨refusal, same⟩ | ⟨device, outcome, checked, _, slots⟩
  · rw [same]
    exact ⟨held, named, found, stronger⟩
  · rw [slots]
    split
    · cases wins : replaces event held with
      | false => exact ⟨held, named, by simp [found, offer, wins], stronger⟩
      | true =>
        refine ⟨event, named, by simp [found, offer, wins], ?_⟩
        have heldKind := (book.keyed earlier.pubkey deviceHex held found).1
        refine Bool.eq_false_iff.mpr fun beats => ?_
        have through := replaces_trans (kind.trans checked.kind.symm) (checked.kind.trans heldKind.symm) beats wins
        simp [stronger] at through
    · exact ⟨held, named, found, stronger⟩

/-- An event that an insert accepts is known. -/
theorem knows_insert {outcome : Inserted} (ok : (book.insert event now).2 = .ok outcome) :
    (book.insert event now).1.Knows event := by
  rcases book.insert_cases event now with ⟨refusal, same⟩ | ⟨device, _, checked, _, slots⟩
  · rw [same] at ok
    cases ok
  · refine ⟨checked.kind, device, ?_⟩
    rw [slots, if_pos rfl]
    cases held : book.newest[toLex (event.pubkey, device)]? with
    | none => exact ⟨event, checked.named, rfl, replaces_irrefl event⟩
    | some current =>
      cases wins : replaces event current with
      | false => exact ⟨current, checked.named, by simp [offer, wins], wins⟩
      | true => exact ⟨event, checked.named, by simp [offer, wins], replaces_irrefl event⟩

/-- Authenticating changes the book by an insert at most. -/
theorem authenticate_cases (book : BindingBook) (presented : Event) (conn : EndpointId) (now : Timestamp) :
    (∃ refusal, verifyBindingAt presented conn now = .error refusal ∧
      book.authenticate presented conn now = (book, .error refusal)) ∨
    (verifyBindingAt presented conn now).isOk = true ∧
      (book.authenticate presented conn now).1 = (book.insert presented now).1 := by
  unfold authenticate
  split
  · rename_i refusal refused
    exact .inl ⟨refusal, refused, rfl⟩
  · rename_i person verified
    refine .inr ⟨by rw [verified]; rfl, ?_⟩
    split
    · rename_i same
      rw [same]
    · rename_i same
      rw [same]
      split
      · rfl
      · split <;> rfl

theorem authenticate_ok {presented : Event} {conn : EndpointId} {person : PublicKey}
    (ok : (book.authenticate presented conn now).2 = .ok person) :
    Speaks presented person conn now ∧ ∃ held,
      (book.authenticate presented conn now).1.newest[toLex (person, Devices.toText conn)]? = some held ∧
        Speaks held person conn now := by
  unfold authenticate at ok ⊢
  split at ok
  · cases ok
  · rename_i other verified
    split at ok
    · cases ok
    · split at ok
      · cases ok
      · rename_i newest found
        split at ok
        · cases ok
        · rename_i unrevoked
          have held := verifyBindingAt_ok ok
          have presents := verifyBindingAt_ok verified
          have author := (BindingBook.keyed _ other (Devices.toText conn) newest found).2.1
          obtain rfl : other = person := author.symm.trans held.author
          rw [if_neg unrevoked]
          exact ⟨presents, newest, found, held⟩

/-- One more call. -/
private theorem Knows.run {call : Call} {earlier : Event} (knows : book.Knows earlier) :
    (call.run book).Knows earlier := by
  cases call with
  | insert event now => exact knows.insert
  | authenticate presented conn now =>
    rw [Call.run]
    rcases book.authenticate_cases presented conn now with ⟨_, _, same⟩ | ⟨_, same⟩
    · rw [same]
      exact knows
    · rw [same]
      exact knows.insert

private theorem knows_run {call : Call} (accepts : call.accepts book = some event) : (call.run book).Knows event := by
  have accepted : ∀ {now}, (book.insert event now).2.isOk = true → (book.insert event now).1.Knows event := by
    intro now isOk
    cases outcome : (book.insert event now).2 with
    | error refusal => simp [outcome, Except.isOk, Except.toBool] at isOk
    | ok done => exact knows_insert outcome
  cases call with
  | insert other now =>
    simp only [Call.accepts, Option.ite_none_right_eq_some, Option.some.injEq] at accepts
    obtain ⟨isOk, rfl⟩ := accepts
    exact accepted isOk
  | authenticate presented conn now =>
    simp only [Call.accepts, Option.ite_none_right_eq_some, Option.some.injEq, Bool.and_eq_true] at accepts
    obtain ⟨⟨verified, isOk⟩, rfl⟩ := accepts
    rw [Call.run]
    rcases book.authenticate_cases presented conn now with ⟨_, refused, _⟩ | ⟨_, same⟩
    · simp [refused, Except.isOk, Except.toBool] at verified
    · rw [same]
      exact accepted isOk

/-- Whatever any call accepted is known after the last. -/
theorem knows_after {calls : List Call} (accepted : Accepted calls event) : (after calls).Knows event := by
  obtain ⟨front, call, back, rfl, accepts⟩ := accepted
  have known : (after (front ++ [call])).Knows event := by
    rw [after, List.foldl_append]
    exact knows_run accepts
  have keeps : ∀ book : BindingBook, book.Knows event → (back.foldl Call.run book).Knows event := by
    induction back with
    | nil => exact fun _ knows => knows
    | cons next rest ih => exact fun book knows => ih _ knows.run
  have split : after (front ++ call :: back) = back.foldl Call.run (after (front ++ [call])) := by
    simp [after, List.foldl_append]
  rw [split]
  exact keeps _ known

/-- Who is let in on a device presents a proven, unexpired binding of it, and every
revocation of it taken in before is older than the proven, unexpired binding that the
book holds as newest. -/
theorem authenticate_safe (calls : List Call) {presented : Event} {conn : EndpointId} {now : Timestamp}
    {person : PublicKey} (ok : ((after calls).authenticate presented conn now).2 = .ok person) :
    Speaks presented person conn now ∧ ∃ held,
      ((after calls).authenticate presented conn now).1.newest[toLex (person, Devices.toText conn)]? = some held ∧
        Speaks held person conn now ∧ ∀ revocation, Accepted calls revocation → isRevoked revocation = true →
          revocation.pubkey = person → Nostr.identifier revocation.tags = some (Devices.toText conn) →
            revocation.createdAt < held.createdAt := by
  obtain ⟨presents, held, found, speaks⟩ := authenticate_ok ok
  refine ⟨presents, held, found, speaks, fun revocation accepted revokes author named => ?_⟩
  have knows : ((Call.authenticate presented conn now).run (after calls)).Knows revocation :=
    (knows_after accepted).run
  obtain ⟨kind, deviceHex, newest, named', found', weaker⟩ := knows
  obtain rfl : Devices.toText conn = deviceHex := Option.some.inj (named.symm.trans named')
  rw [author] at found'
  obtain rfl := Option.some.inj (found.symm.trans found')
  exact revocation_older revokes speaks.unrevoked kind (BindingBook.keyed _ _ _ _ found).1 weaker

end BindingBook

end Runs

/-- Devices that go by their own bytes: each signs its key and the person it is asked for. -/
instance plainDevices : Devices where
  Key := EndpointId
  endpoint device := device
  parse text := (plainFromHex text).map fun key => ⟨key.bytes⟩
  toText device := plainToHex ⟨device.bytes⟩
  prove device message := PublicKey.toBytes ⟨device.bytes⟩ ++ (message.drop (message.length - 32)).rightpad 32 0
  verifies device message proof :=
    proof == PublicKey.toBytes ⟨device.bytes⟩ ++ (message.drop (message.length - 32)).rightpad 32 0
  parse_toText device := by simp [plainFromHex_plainToHex]
  length_prove device message := by
    simp only [PublicKey.toBytes, List.length_append, List.length_map, List.length_range, List.length_rightpad,
      List.length_drop]
    omega
  verifies_prove device message := by simp

/-- A device of the guest's. -/
def laptop : EndpointId := ⟨7⟩

/-- The guest binds the laptop, loses it, finds it and binds it again. -/
def foundAgain : List Call :=
  [.insert (signBinding guest laptop 100 1000) 100, .insert (signRevocation guest laptop 110) 110,
    .insert (signBinding guest laptop 120 1000) 120]

theorem authenticate_safe_foundAgain : ∃ held,
    ((BindingBook.after foundAgain).authenticate (signBinding guest laptop 100 1000) laptop 130).1.newest[
      toLex (guest, Devices.toText laptop)]? = some held ∧ (110 : Timestamp) < held.createdAt := by
  have ok : ((BindingBook.after foundAgain).authenticate (signBinding guest laptop 100 1000) laptop 130).2.toOption =
      some guest := by decide +kernel
  have accepted : Accepted foundAgain (signRevocation guest laptop 110) :=
    ⟨[.insert (signBinding guest laptop 100 1000) 100], .insert (signRevocation guest laptop 110) 110,
      [.insert (signBinding guest laptop 120 1000) 120], rfl, by decide +kernel⟩
  cases entered : ((BindingBook.after foundAgain).authenticate (signBinding guest laptop 100 1000) laptop 130).2 with
  | error refusal => simp [entered, Except.toOption] at ok
  | ok person =>
    obtain rfl : person = guest := by simpa [entered, Except.toOption] using ok
    obtain ⟨_, held, found, _, older⟩ := BindingBook.authenticate_safe foundAgain entered
    exact ⟨held, found, older _ accepted (by decide) rfl (by decide +kernel)⟩

end HitEnter.Wire
