import HitEnter.Group.ApplySpec
import HitEnter.Group.JudgeSpec

/-! Who reads what. The rule for strangers is the rule for a member without roles,
as far as the group is public and the channel there; and what goes out on gossip
is what every member may read. -/

namespace HitEnter.Group

open Wire Lib.Checks

namespace GroupState

/-- The state with `q` a member without roles. -/
def withPlainMember (s : GroupState) (q : PublicKey) : GroupState :=
  { s with members := s.members.insert q ∅ }

section Strangers
variable [Nostr] {s : GroupState} {r q : PublicKey} {ev : Event} {now : Timestamp}

theorem removes_iff : removes ev r = true ↔ ∃ group ban, parseAction ev = some (group, .remove r ban) := by
  unfold removes
  split
  · rename_i group target ban read
    simp [read]
  · rename_i other
    simp only [Bool.false_eq_true, false_iff, not_exists]
    intro group ban read
    exact other group r ban read

theorem mayRead_member (member : s.isMember r = true) : s.mayRead r ev now = true ↔
    s.isFolded ev now = false ∧ (inChannel ev = true →
      ∃ c, channelOf ev = some c ∧ (s.effective r c).contains .viewChannel = true) := by
  unfold mayRead
  simp only [member, Bool.not_true, Bool.false_eq_true, ↓reduceIte]
  cases folded : s.isFolded ev now with
  | true => simp
  | false =>
    cases channel : inChannel ev with
    | true => simp [Option.any_eq_true]
    | false => simp

private theorem mayRead_plainMember (plain : some q ≠ s.owner) :
    (s.withPlainMember q).mayRead q ev now = true ↔ s.isFolded ev now = false ∧
      (inChannel ev = true → ∃ c, channelOf ev = some c ∧ (s.effectiveOf ∅ c).contains .viewChannel = true) := by
  have found : (s.withPlainMember q).members[q]? = some ∅ := Std.ExtTreeMap.getElem?_insert_self
  rw [mayRead_member (isMember_iff.mpr ⟨∅, found⟩)]
  have answers (c : String) : (s.withPlainMember q).effective q c = s.effectiveOf ∅ c :=
    effective_member plain found
  simp only [answers]
  rfl

/-- A stranger sees their own removal, and of a public group what a member without
roles sees, in channels that are there; of any other group nothing else. -/
theorem mayRead_stranger (stranger : s.isMember r = false) (plain : some q ≠ s.owner) :
    s.mayRead r ev now = true ↔
      (∃ group ban, parseAction ev = some (group, .remove r ban)) ∨
        s.isPublic = true ∧ (s.withPlainMember q).mayRead q ev now = true ∧
          (inChannel ev = true → ∃ c, channelOf ev = some c ∧ (s.channel c).isSome = true) := by
  rw [mayRead_plainMember plain, ← removes_iff]
  unfold mayRead
  simp only [stranger, Bool.not_false, ↓reduceIte]
  cases own : removes ev r with
  | true => simp
  | false =>
    cases folded : s.isFolded ev now with
    | true => simp
    | false =>
      cases open_ : s.isPublic with
      | false => simp
      | true =>
        cases channel : inChannel ev with
        | false => simp
        | true =>
          cases named : channelOf ev with
          | none => simp
          | some c => simp [openToReaders, open_, and_comm]

end Strangers

end GroupState

/-! ### Gossip -/

section Gossip
variable [NostrEvents] {gs : Groups} {ev : Event} {now : Timestamp} {g : PublicKey} {s : GroupState}

/-- What goes out on gossip belongs to a carried group, and a channel it is in is
one that every member can view. -/
private theorem gossipGroup_some (sent : gs.gossipGroup ev = some g) :
    ∃ s, groupOf ev = some g ∧ gs.state g = some s ∧
      (GroupState.inChannel ev = true → ∃ c, channelOf ev = some c ∧ s.everyoneCanView c = true) := by
  simp only [Groups.gossipGroup, Option.bind_eq_bind, Option.bind_eq_some_iff] at sent
  obtain ⟨group, own, s, held, sent⟩ := sent
  split at sent
  · rename_i channel
    split at sent
    · rename_i viewed
      obtain rfl := Option.some.inj sent
      exact ⟨s, own, held, fun _ => (Option.any_eq_true _ _).mp viewed⟩
    · cases sent
  · rename_i channel
    split at sent
    · obtain rfl := Option.some.inj sent
      exact ⟨s, own, held, fun here => absurd here channel⟩
    · cases sent

/-- What a node keeps of a group is not folded. -/
private theorem judge_not_folded {judgement : Judgement} (ok : gs.judge ev now = .ok judgement)
    (own : groupOf ev = some g) (held : gs.state g = some s) : s.isFolded ev now = false := by
  obtain ⟨notWrap, notPersonal⟩ := group_not_personal own
  obtain ⟨slot, carried, same⟩ : ∃ slot, gs.carried[g]? = some slot ∧ slot = some s := by
    simpa [Groups.state, Option.join_eq_some_iff] using held
  subst same
  cases action : actionKinds.contains ev.kind with
  | false =>
    have other : ev.kind ≠ createInvite := by
      intro same
      rw [same] at action
      exact absurd action (by decide)
    rw [GroupState.isFolded, if_neg other, action, Bool.false_and]
  | true =>
    have notCreate : ev.kind ≠ createGroup := by
      intro same
      rw [same] at action
      exact absurd action (by decide)
    simp only [Groups.judge, bind_eq_ok, notWrap, notPersonal, ↓reduceIte, Bool.false_eq_true] at ok
    obtain ⟨_, _, _, _, ok⟩ := ok
    simp only [Groups.judgeInGroup, bind_eq_ok, own, carried, orRefuse_eq_ok, Option.some.injEq,
      exists_eq_left', action_not_state action, Bool.false_eq_true, ↓reduceIte, notCreate, action] at ok
    split at ok
    · simp only [Groups.judgeInvite, bind_eq_ok, refuseIf_eq_ok] at ok
      obtain ⟨_, fresh, _⟩ := ok
      exact fresh
    · simp only [bind_eq_ok, refuseIf_eq_ok] at ok
      obtain ⟨_, fresh, _⟩ := ok
      exact fresh

/-- Gossip reaches no one who may not read what it carries. -/
theorem gossip_readable {judgement : Judgement} (ok : gs.judge ev now = .ok judgement)
    (sent : gs.gossipGroup ev = some g) (held : gs.state g = some s) {m : PublicKey}
    (member : s.isMember m = true) : gs.mayRead m ev now = true := by
  obtain ⟨s', own, held', viewed⟩ := gossipGroup_some sent
  obtain rfl : s' = s := Option.some.inj (held'.symm.trans held)
  obtain ⟨notWrap, notPersonal⟩ := group_not_personal own
  have readable : s'.mayRead m ev now = true := by
    refine (GroupState.mayRead_member member).mpr ⟨judge_not_folded ok own held, fun channel => ?_⟩
    obtain ⟨c, named, everyone⟩ := viewed channel
    refine ⟨c, named, List.all_eq_true.mp everyone m ?_⟩
    exact Std.ExtTreeMap.mem_keys.mpr (Std.ExtTreeMap.contains_iff_mem.mp member)
  simp [Groups.mayRead, notWrap, notPersonal, own, held, readable]

end Gossip

/-- Something said in the one channel of a new group. -/
def hello (date : Timestamp) : Event := signed guest date chatMessage [Draft.h club, ["channel", "general"]] "hello"

theorem mayRead_stranger_youngClub : ∃ s, GroupState.fold club youngClub = some s ∧
    s.isMember caller = false ∧ s.mayRead caller (hello 500) 600 = true := by
  have facts : ((GroupState.fold club youngClub).any fun s =>
      !s.isMember caller && decide (some steward ≠ s.owner) && s.isPublic &&
        (s.withPlainMember steward).mayRead steward (hello 500) 600 && (s.channel "general").isSome) = true := by
    decide +kernel
  have named : channelOf (hello 500) = some "general" := by decide +kernel
  obtain ⟨s, found, checks⟩ := (Option.any_eq_true _ _).mp facts
  simp only [Bool.and_eq_true, Bool.not_eq_true', decide_eq_true_eq] at checks
  obtain ⟨⟨⟨⟨stranger, plain⟩, open_⟩, read⟩, channel⟩ := checks
  refine ⟨s, found, stranger, (GroupState.mayRead_stranger stranger plain).mpr (.inr ⟨open_, read, ?_⟩)⟩
  exact fun _ => ⟨"general", named, channel⟩

/-- The owner's node, carrying one group. -/
def ownersGroups (s : GroupState) : Groups := { me := founder, carried := (∅ : BTreeMap _ _).insert club (some s) }

theorem gossip_readable_youngClub : ∃ s, GroupState.fold club youngClub = some s ∧
    (ownersGroups s).gossipGroup (hello 500) = some club ∧
      (ownersGroups s).mayRead founder (hello 500) 600 = true := by
  have facts : ((GroupState.fold club youngClub).any fun s =>
      ((ownersGroups s).judge (hello 500) 600).isOk && s.isMember founder &&
        decide ((ownersGroups s).gossipGroup (hello 500) = some club)) = true := by
    decide +kernel
  obtain ⟨s, found, checks⟩ := (Option.any_eq_true _ _).mp facts
  simp only [Bool.and_eq_true, decide_eq_true_eq] at checks
  obtain ⟨⟨judged, member⟩, sent⟩ := checks
  have held : (ownersGroups s).state club = some s := by simp [Groups.state, ownersGroups]
  cases verdict : (ownersGroups s).judge (hello 500) 600 with
  | error refusal => simp [verdict, Except.isOk, Except.toBool] at judged
  | ok judgement => exact ⟨s, found, sent, gossip_readable verdict sent held member⟩

end HitEnter.Group
