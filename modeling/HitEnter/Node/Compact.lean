import HitEnter.Node.TagIndex

/-! A compaction, as the node that makes it judges it. Its date is a second past all that
is held of the group, and what is held may be dated as far ahead as a clock may be wrong. -/

namespace HitEnter.Node

open Wire HitEnter.Group Lib.Checks

section Compact
variable [Nostr]

/-- The messages held of a group, oldest first. -/
def Store.messages (s : Store) (group : PublicKey) : List Event :=
  (s.query (Filter.inGroup { kinds := some [chatMessage] } group)).reverse

/-- What is held of a group: all that the fold reads, and the messages. -/
def Store.heldOf (s : Store) (group : PublicKey) : List Event := s.groupEvents group ++ s.messages group

def Store.newest (s : Store) (group : PublicKey) : Timestamp := ((s.heldOf group).map Event.createdAt).max?.getD 0

variable {store : Store} {group : PublicKey} {now : Timestamp}

theorem Store.newest_cases (store : Store) (group : PublicKey) :
    store.newest group = 0 ∨ ∃ ev ∈ store.heldOf group, ev.createdAt = store.newest group := by
  unfold Store.newest
  cases top : ((store.heldOf group).map Event.createdAt).max? with
  | none => exact .inl rfl
  | some date =>
    obtain ⟨ev, held, dated⟩ := List.mem_map.mp (List.max?_eq_some_iff.mp top).1
    exact .inr ⟨ev, held, dated⟩

theorem Store.le_newest {ev : Event} (held : ev ∈ store.heldOf group) : ev.createdAt ≤ store.newest group := by
  have listed := List.mem_map_of_mem (f := Event.createdAt) held
  unfold Store.newest
  cases top : ((store.heldOf group).map Event.createdAt).max? with
  | none => simp [List.max?_eq_none_iff.mp top] at listed
  | some date => exact (List.max?_eq_some_iff.mp top).2 _ listed

end Compact

section Made
variable [NostrEvents] {store : Store} {carried : List PublicKey} {group me : PublicKey} {now : Timestamp}

/-- The state the store folds to, as the snapshot at the next `seq`, dated one second after
everything of the group that is held: the new `seq` and the four events. -/
def compaction (store : Store) (carried : List PublicKey) (group me : PublicKey) (now : Timestamp) :
    Option (UInt64 × List Event) :=
  ((groupsIn store carried me).state group).map fun s =>
    (s.toSnapshot.seq, s.toSnapshot.sign group (max now (Nostr.add (store.newest group) 1)))

/-- What a start holds of a group is its fold. -/
theorem groupsIn_state {s : GroupState} (there : (groupsIn store carried me).state group = some s) :
    GroupState.fold group (store.groupEvents group) = some s := by
  suffices general : ∀ gs : Groups, (∀ g t, gs.state g = some t → GroupState.fold g (store.groupEvents g) = some t) →
      ∀ g t, (carried.foldl (fun gs g => (gs.carry g).setState g (GroupState.fold g (store.groupEvents g))) gs).state g =
        some t → GroupState.fold g (store.groupEvents g) = some t by
    exact general _ (fun g t blank => by simp [Groups.state] at blank) group s there
  clear there
  intro gs folds
  induction carried generalizing gs with
  | nil => exact folds
  | cons first rest ih =>
    refine ih ((gs.carry first).setState first _) fun g t found => ?_
    rw [Groups.state_setState] at found
    split at found
    · rename_i same
      exact same.1 ▸ found
    · rename_i other
      refine folds g t ?_
      unfold Groups.carry Groups.state at found
      unfold Groups.state
      rw [Std.ExtTreeMap.getElem?_insertIfNew] at found
      split at found
      · cases found
      · exact found

/-- A state event of a carried group is taken unless it is ahead of the clock. -/
theorem judge_signed {gs : Groups} {ev : Event} {seq : UInt64} {piece : StatePiece}
    (carries : gs.carried.contains group = true) (state : stateKinds.contains ev.kind = true)
    (read : parseState ev = some (group, seq, piece)) : gs.judge ev now = .ok .store ↔
      ev.createdAt ≤ Nostr.add now maxClockSkew := by
  have own := (parseState_some read).1
  have kinds : ∀ kind, stateKinds.contains kind = true →
      carriedKinds.contains kind = true ∧ kind ≠ giftWrap ∧ isPersonal kind = false := by
    intro kind listed
    simp only [stateKinds, List.contains_iff_mem, List.mem_cons, List.not_mem_nil, or_false] at listed
    rcases listed with rfl | rfl | rfl | rfl <;> decide
  obtain ⟨carried, notWrap, notPersonal⟩ := kinds ev.kind state
  rw [Std.ExtTreeMap.contains_eq_isSome_getElem?] at carries
  obtain ⟨slot, held⟩ := Option.isSome_iff_exists.mp carries
  have inGroup : gs.judgeInGroup ev now = .ok .store := by
    simp only [Groups.judgeInGroup, bind_eq_ok, orRefuse_eq_ok, own, state, if_true, read, refuseIf_eq_ok]
    simpa using ⟨slot, held⟩
  simp only [Groups.judge, bind_eq_ok, carried, notWrap, notPersonal, inGroup, refuseIf_eq_ok]
  simp

section Bounds
variable (saturates : ∀ (date : Timestamp) (secs : UInt64),
  (Nostr.add date secs).toNat = min (date.toNat + secs.toNat) (2 ^ 64 - 1))

include saturates

theorem add_le_add {a b : Timestamp} (earlier : a ≤ b) (secs : UInt64) : Nostr.add a secs ≤ Nostr.add b secs := by
  change (Nostr.add a secs).toNat ≤ (Nostr.add b secs).toNat
  have dates : a.toNat ≤ b.toNat := earlier
  rw [saturates, saturates]
  omega

theorem le_add (date : Timestamp) (secs : UInt64) : date ≤ Nostr.add date secs := by
  change date.toNat ≤ (Nostr.add date secs).toNat
  have small : date.toNat < 2 ^ 64 := date.secs.toNat_lt
  rw [saturates]
  omega

/-- The bounds meet where the newest that is held is a second short of the clock's leeway. -/
theorem date_le_bound (store : Store) (group : PublicKey) :
    max now (Nostr.add (store.newest group) 1) ≤ Nostr.add now maxClockSkew ↔
      ∀ ev ∈ store.heldOf group, Nostr.add ev.createdAt 1 ≤ Nostr.add now maxClockSkew := by
  rw [max_le_iff, and_iff_right (le_add saturates now maxClockSkew)]
  constructor
  · intro bounded ev held
    exact (add_le_add saturates (store.le_newest held) 1).trans bounded
  · intro bounded
    rcases store.newest_cases group with none_ | ⟨ev, held, dated⟩
    · change (Nostr.add (store.newest group) 1).toNat ≤ (Nostr.add now maxClockSkew).toNat
      have one : (1 : UInt64).toNat = 1 := rfl
      have skew : maxClockSkew.toNat = 600 := rfl
      have zero : (0 : Timestamp).toNat = 0 := rfl
      rw [none_, saturates, saturates, one, skew, zero]
      omega
    · exact dated ▸ bounded ev held

/-- What a compaction signs is taken by whoever carries the group if and only if nothing
held of it is within a second of as far ahead as a clock may be. -/
theorem compaction_judged_iff {gs : Groups} (carries : gs.carried.contains group = true) {seq : UInt64}
    {events : List Event} (made : compaction store carried group me now = some (seq, events)) :
    (∀ ev ∈ events, gs.judge ev now = .ok .store) ↔
      ∀ ev ∈ store.heldOf group, Nostr.add ev.createdAt 1 ≤ Nostr.add now maxClockSkew := by
  obtain ⟨s, there, same⟩ := Option.map_eq_some_iff.mp made
  obtain ⟨rfl, rfl⟩ := Prod.mk.inj same
  have sound := Reached.sound (GroupState.fold_reached (groupsIn_state there))
  have unmarked : ∀ (p : PublicKey) held, s.toSnapshot.members[p]? = some held → ownerMark ∉ held :=
    fun p held found marked => (sound.held p held found ownerMark marked).2.2 rfl
  rw [← date_le_bound saturates]
  have dates : ∀ ev ∈ s.toSnapshot.sign group (max now (Nostr.add (store.newest group) 1)),
      (gs.judge ev now = .ok .store ↔ max now (Nostr.add (store.newest group) 1) ≤ Nostr.add now maxClockSkew) := by
    intro ev member
    obtain ⟨piece, read⟩ := parseState_sign member unmarked
    rw [judge_signed carries (sign_state member) read, sign_date member]
  constructor
  · intro taken
    obtain ⟨ev, member⟩ := List.exists_mem_of_ne_nil (s.toSnapshot.sign group _) (by simp [Snapshot.sign])
    exact (dates ev member).mp (taken ev member)
  · exact fun early ev member => (dates ev member).mpr early

end Bounds

end Made

theorem toNat_plainAdd (date : Timestamp) (secs : UInt64) :
    (plainAdd date secs).toNat = min (date.toNat + secs.toNat) (2 ^ 64 - 1) := by
  unfold plainAdd
  split
  · rename_i short
    have value : (date.secs + secs).toNat = date.secs.toNat + secs.toNat := by
      rw [UInt64.toNat_add, Nat.mod_eq_of_lt short]
    change (date.secs + secs).toNat = min (date.secs.toNat + secs.toNat) (2 ^ 64 - 1)
    omega
  · rename_i long
    change 2 ^ 64 - 1 = min (date.secs.toNat + secs.toNat) (2 ^ 64 - 1)
    omega

/-- At 600 the club's store is compacted, and the compaction is taken. -/
theorem compaction_judged_youngStore : ∃ seq events, compaction youngStore [club] club founder 600 = some (seq, events) ∧
    ∀ ev ∈ events, (groupsIn youngStore [club] founder).judge ev 600 = .ok .store := by
  have made : (compaction youngStore [club] club founder 600).isSome = true := by decide +kernel
  obtain ⟨⟨seq, events⟩, found⟩ := Option.isSome_iff_exists.mp made
  exact ⟨seq, events, found, (compaction_judged_iff toNat_plainAdd (by decide +kernel) found).mpr (by decide +kernel)⟩

/-- The club's store, with a message from a clock ten minutes ahead. -/
def aheadStore : Store := (youngStore.insert (hello 1200)).1

/-- All that is held is taken at 600, and nothing of the compaction of that second is. -/
theorem compaction_aheadStore :
    (∀ ev ∈ aheadStore.events, ((groupsIn aheadStore [club] founder).judge ev 600).isOk = true) ∧
      hello 1200 ∈ aheadStore.events ∧
      (compaction aheadStore [club] club founder 600).any fun made => made.2.length == 4 &&
        made.2.all fun ev => (groupsIn aheadStore [club] founder).judge ev 600 = .error .fromTheFuture := by
  decide +kernel

end HitEnter.Node
