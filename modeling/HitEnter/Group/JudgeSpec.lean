import HitEnter.Group.FoldSpec
import HitEnter.Group.Judge

/-! What a judgement that passes has seen: the group, and for what is said in a channel
that no silence covers it. -/

namespace HitEnter.Group

open Wire Lib.Checks

theorem groupKind_not_personal {kind : Kind} (group : isGroupKind kind = true) :
    kind ≠ giftWrap ∧ isPersonal kind = false := by
  have strangers : ([giftWrap, deviceBinding, profile, inboxList].all fun kind => !isGroupKind kind) = true := by
    decide +kernel
  have other : ∀ stranger ∈ [giftWrap, deviceBinding, profile, inboxList], kind ≠ stranger := by
    intro stranger listed same
    have apart := List.all_eq_true.mp strangers stranger listed
    rw [← same, group] at apart
    cases apart
  refine ⟨other _ (by simp), ?_⟩
  simp [isPersonal, other deviceBinding (by simp), other profile (by simp), other inboxList (by simp)]

/-- A carried group has the state it was last given. -/
theorem Groups.state_setState {gs : Groups} {g other : PublicKey} {state : Option GroupState} :
    (gs.setState g state).state other = if g = other ∧ gs.carried.contains g = true then state else gs.state other := by
  unfold Groups.setState Groups.state
  cases carried : gs.carried.contains g with
  | false => simp
  | true =>
    simp only [↓reduceIte, and_true, Std.ExtTreeMap.getElem?_insert, compare_eq_iff_eq]
    split <;> simp

/-- What may be withdrawn is said in a channel. -/
theorem said_kind {kind : Kind} (said : kind = chatMessage ∨ kind = reaction) :
    isGroupKind kind = true ∧ stateKinds.contains kind = false ∧ actionKinds.contains kind = false ∧
      kind ≠ createGroup ∧ kind ≠ createInvite ∧ kind ≠ presence ∧ kind ≠ voicePresence ∧
      kind ≠ zapCarrier ∧ kind ≠ deletion ∧ kind ≠ deleteEvent := by
  rcases said with rfl | rfl
  all_goals decide

section Judge
variable [NostrEvents] {gs : Groups} {ev : Event} {now : Timestamp} {g : PublicKey} {judgement : Judgement}

theorem isGroupKind_of_groupOf (own : groupOf ev = some g) : isGroupKind ev.kind = true := by
  unfold groupOf at own
  split at own
  · rename_i state
    simp only [isGroupKind, state, Bool.or_true, Bool.true_or]
  · split at own
    · cases own
    · rename_i group
      simpa using group

theorem group_not_personal (own : groupOf ev = some g) : ev.kind ≠ giftWrap ∧ isPersonal ev.kind = false :=
  groupKind_not_personal (isGroupKind_of_groupOf own)

theorem judge_inGroup (ok : gs.judge ev now = .ok judgement) (group : isGroupKind ev.kind = true) :
    gs.judgeInGroup ev now = .ok judgement := by
  obtain ⟨notWrap, notPersonal⟩ := groupKind_not_personal group
  simp only [Groups.judge, bind_eq_ok, notWrap, notPersonal, ↓reduceIte, Bool.false_eq_true] at ok
  obtain ⟨_, _, _, _, ok⟩ := ok
  exact ok

/-- A group's event that passes is read to be in a group that is carried. -/
theorem judge_carried (ok : gs.judge ev now = .ok judgement) (group : isGroupKind ev.kind = true) :
    ∃ g slot, groupOf ev = some g ∧ gs.carried[g]? = some slot := by
  have inGroup := judge_inGroup ok group
  simp only [Groups.judgeInGroup, bind_eq_ok, orRefuse_eq_ok] at inGroup
  obtain ⟨g, own, slot, carried, _⟩ := inGroup
  exact ⟨g, slot, own, carried⟩

/-- A message or reaction that passes is covered by no silence of its author. -/
theorem judge_unsilenced (ok : gs.judge ev now = .ok judgement) (said : ev.kind = chatMessage ∨ ev.kind = reaction)
    (own : groupOf ev = some g) :
    ∃ s, gs.state g = some s ∧ s.silenceAt ev.pubkey ev.createdAt = none := by
  obtain ⟨group, notState, notAction, notCreate, notInvite, notPresence, notVoice, notZap, notDeletion, notRemoval⟩ :=
    said_kind said
  have inGroup := judge_inGroup ok group
  simp only [Groups.judgeInGroup, bind_eq_ok, orRefuse_eq_ok, own, Option.some.injEq, exists_eq_left', notState,
    notAction, notCreate, notInvite, Bool.false_eq_true, ↓reduceIte] at inGroup
  obtain ⟨slot, carried, s, rfl, judged⟩ := inGroup
  refine ⟨s, by simp [Groups.state, carried], ?_⟩
  have message : s.judgeMessage ev = .ok () := by
    simp only [Groups.judgePost, notPresence, notVoice, notZap, notDeletion, notRemoval, ↓reduceIte] at judged
    rcases said with kind | kind
    · have other : ev.kind ≠ reaction := by
        rw [kind]
        decide
      rw [if_neg other, bind_eq_ok] at judged
      obtain ⟨_, message, _⟩ := judged
      exact message
    · rw [if_pos kind, bind_eq_ok] at judged
      obtain ⟨_, reacted, _⟩ := judged
      simp only [GroupState.judgeReaction, bind_eq_ok] at reacted
      obtain ⟨_, _, message⟩ := reacted
      exact message
  simp only [GroupState.judgeMessage, bind_eq_ok, refuseWith_eq_ok, Option.map_eq_none_iff] at message
  obtain ⟨_, _, _, _, _, clear, _⟩ := message
  exact clear

end Judge

end HitEnter.Group
