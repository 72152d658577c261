import HitEnter.Group.Batches
import HitEnter.Group.Escalation

/-! Who reads a channel once it is deleted. Its overrides go with it, so what is
left of a member's access is what their roles grant group-wide; a reader who is
no member sees nothing of it. -/

namespace HitEnter.Group.GroupState

open Wire

variable {s next : GroupState} {actor : PublicKey} {batch : List Edit} {c : String}

private theorem channelKind_not_action {kind : Kind} (posted : channelKinds.contains kind = true) :
    actionKinds.contains kind = false := by
  simp only [channelKinds, List.contains_iff_mem, List.mem_cons, List.not_mem_nil, or_false] at posted
  rcases posted with same | same | same | same | same <;> rw [same] <;> decide

theorem contains_viewChannel {perms : Permissions} :
    perms.contains .viewChannel = true ↔ perms.has 0 := by
  rw [Permissions.contains_iff]
  constructor
  · exact fun all => all 0 (by decide)
  · intro view i only
    have first : i = 0 := by
      revert i
      decide
    exact first ▸ view

/-- What is posted in a channel is read by whoever sees the channel. -/
theorem mayRead_posted [Nostr] {e : Event} (reader : PublicKey) (now : Timestamp)
    (posted : channelKinds.contains e.kind = true) (inC : channelOf e = some c) :
    s.mayRead reader e now =
      if s.isMember reader then (s.effective reader c).contains .viewChannel else s.openToReaders c := by
  have noAction := channelKind_not_action posted
  have unread : parseAction e = none := by
    cases read : parseAction e with
    | none => rfl
    | some parsed => exact absurd (parseAction_kind read) (noAction ▸ Bool.false_ne_true)
  have notInvite : e.kind ≠ createInvite := by
    intro invite
    rw [invite] at noAction
    simp [actionKinds] at noAction
  have current : s.isFolded e now = false := by simp only [isFolded, notInvite, ↓reduceIte, noAction, Bool.false_and]
  have placed : GroupState.inChannel e = true := by simp only [GroupState.inChannel, posted, Bool.true_or]
  cases member : s.isMember reader with
  | true => simp [mayRead, member, current, placed, inC]
  | false =>
    cases isPublic : s.isPublic with
    | true => simp [mayRead, member, current, placed, inC, removes, unread, isPublic]
    | false => simp [mayRead, member, current, removes, unread, isPublic, openToReaders]

/-- Someone holding `held` has, by the definitions the batch leaves, a role that
grants viewing group-wide. -/
def SeesAfter (s : GroupState) (batch : List Edit) (held : BTreeSet String) : Prop :=
  ∃ q role, (q = defaultRole ∨ q ∈ held ∧ Edit.roleDelete q ∉ batch) ∧
    (lastSaid (roleEdit q) batch).getD s.roles[q]? = some role ∧
      (Permissions.mk role.perms).contains .viewChannel = true

/-- With its overrides gone, a deleted channel shows to a member what their roles
show group-wide. -/
private theorem effective_deleted {p : PublicKey} {held : BTreeSet String}
    (ok : s.edits actor batch = .ok next) (deleted : lastSaid (channelEdit c) batch = some false)
    (other : some p ≠ s.owner) (found : s.members[p]? = some held) :
    (next.effective p c).contains .viewChannel = true ↔ SeesAfter s batch held := by
  obtain ⟨kept, found', which⟩ := edits_members ok found
  have other' : some p ≠ next.owner := (edits_ok ok).owner ▸ other
  have bare : ∀ o, o ∉ next.overridesOf kept c := by
    intro o listed
    obtain ⟨member, inC, _⟩ := mem_overridesOf.mp listed
    exact (edits_deleted ok deleted).2 o member inC
  have known : Permissions.all.has 0 := by decide
  rw [contains_viewChannel, effective_member other' found', has_effectiveOf]
  simp only [Denies, Allows, bare, false_and, exists_false, and_false, not_false_eq_true, and_true,
    or_false, known]
  constructor
  · intro based
    obtain ⟨q, role, carried, defined, bit, _⟩ := has_baseOf_role based
    rw [which] at carried
    rw [edits_roles ok] at defined
    exact ⟨q, role, carried, defined, contains_viewChannel.mpr bit⟩
  · rintro ⟨q, role, carried, defined, view⟩
    rw [← which] at carried
    rw [← edits_roles ok] at defined
    exact baseOf_of_role carried defined (contains_viewChannel.mp view) known

/-- A message in `c`. -/
private def posting (author : PublicKey) (c : String) : Event where
  id := ⟨0⟩
  pubkey := author
  createdAt := 0
  kind := chatMessage
  tags := [["channel", c]]
  content := ""

private theorem channelOf_posting (author : PublicKey) (c : String) :
    channelOf (posting author c) = some c := by
  simp [channelOf, posting, channelKinds, firstValue]

/-- A deletion reveals nothing exactly when every member whose roles let them view
group-wide, as the batch leaves the roles, could view the channel already. -/
theorem deletion_reveals_nothing_iff [Nostr] {ev : Event} {group : PublicKey}
    (read : parseAction ev = some (group, .edit batch)) (ok : s.apply ev = (next, .ok ()))
    (deleted : lastSaid (channelEdit c) batch = some false) :
    (∀ reader e now, channelKinds.contains e.kind = true → channelOf e = some c →
        next.mayRead reader e now = true → s.mayRead reader e now = true) ↔
      ∀ p held, some p ≠ s.owner → s.members[p]? = some held → SeesAfter s batch held →
        (s.effective p c).contains .viewChannel = true := by
  obtain ⟨_, action, read', done⟩ := apply_ok ok
  obtain rfl : action = .edit batch := (Prod.mk.inj (Option.some.inj (read'.symm.trans read))).2
  have ran := (applyEdit_ok done).2
  have changed := edits_ok ran
  constructor
  · intro hidden p held other found sees
    -- any message of the channel will do
    have inC := channelOf_posting p c
    have member : s.isMember p = true := isMember_iff.mpr ⟨held, found⟩
    have seen := hidden p (posting p c) 0 rfl inC
    rw [mayRead_posted p 0 rfl inC, mayRead_posted p 0 rfl inC, changed.isMember, if_pos member,
      if_pos member] at seen
    exact seen ((effective_deleted ran deleted other found).mpr sees)
  · intro safe reader e now posted inC seen
    rw [mayRead_posted reader now posted inC, changed.isMember] at seen
    rw [mayRead_posted reader now posted inC]
    cases member : s.isMember reader with
    | false =>
      have gone : next.channel c = none := by
        refine List.find?_eq_none.mpr fun x listed => ?_
        simpa using (edits_deleted ran deleted).1 x listed
      simp [member, openToReaders, gone] at seen
    | true =>
      simp only [member, ↓reduceIte] at seen ⊢
      by_cases own : some reader = s.owner
      · rw [effective_owner own]
        decide
      · obtain ⟨held, found⟩ := isMember_iff.mp member
        exact safe reader held own found ((effective_deleted ran deleted own found).mp seen)

/-- The staff channel is deleted. -/
def staffDeleted : Event := (Draft.editMetadata club [.channelDelete "staff"]).sign founder 110

/-- A message of the staff channel. -/
def staffMessage : Event :=
  signed founder 105 chatMessage [Draft.h club, ["channel", "staff"]] "between us"

/-- The guest, who could not read the channel, reads its messages once it is deleted. -/
theorem staffDeleted_reveals : ∃ s next, Reached club staffEvents s ∧
    parseAction staffDeleted = some (club, .edit [.channelDelete "staff"]) ∧
      s.apply staffDeleted = (next, .ok ()) ∧ channelOf staffMessage = some "staff" ∧
        next.mayRead guest staffMessage 120 = true ∧ s.mayRead guest staffMessage 120 = false := by
  have facts : ((start club staffEvents).any fun s =>
      decide ((s.apply staffDeleted).2 = .ok ()) &&
        (s.apply staffDeleted).1.mayRead guest staffMessage 120 &&
          !s.mayRead guest staffMessage 120) = true := by
    decide +kernel
  obtain ⟨s, reached, checks⟩ := reached_of_start facts
  simp only [Bool.and_eq_true, decide_eq_true_eq, Bool.not_eq_true'] at checks
  exact ⟨s, _, reached, by rfl, apply_eq_of_ok checks.1.1, by rfl, checks.1.2, checks.2⟩

theorem deletion_reveals_nothing_iff_staffDeleted : ∃ s next, Reached club staffEvents s ∧
    s.apply staffDeleted = (next, .ok ()) ∧
      ((∀ reader e now, channelKinds.contains e.kind = true → channelOf e = some "staff" →
          next.mayRead reader e now = true → s.mayRead reader e now = true) ↔
        ∀ p held, some p ≠ s.owner → s.members[p]? = some held →
          SeesAfter s [.channelDelete "staff"] held →
            (s.effective p "staff").contains .viewChannel = true) := by
  have facts : ((start club staffEvents).any fun s => decide ((s.apply staffDeleted).2 = .ok ())) = true := by
    decide +kernel
  have read : parseAction staffDeleted = some (club, .edit [.channelDelete "staff"]) := by rfl
  obtain ⟨s, reached, accepted⟩ := reached_of_start facts
  have ok := apply_eq_of_ok (of_decide_eq_true accepted)
  exact ⟨s, _, reached, ok, deletion_reveals_nothing_iff read ok (by decide)⟩

end HitEnter.Group.GroupState
