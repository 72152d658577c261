import HitEnter.Group.Judge
import HitEnter.Group.FoldSpec
import HitEnter.Lib.Checks

/-! The permission to attach files, against what the judgement of a message asks for. -/

namespace HitEnter.Group

open Wire Lib.Checks

section Files
variable [NostrEvents] {s : GroupState} {p : PublicKey} {channel : String} {msg : Event}

/-- Files of `p` pass in `channel` only where `p` may attach them. -/
def GroupState.AttachNeeds (s : GroupState) (p : PublicKey) (channel : String) : Prop :=
  ∀ msg files, msg.kind = chatMessage → msg.pubkey = p → channelOf msg = some channel → s.judgeMessage msg = .ok () →
    attachmentsOf msg = some files → files ≠ [] → (s.effective p channel).contains .attachFiles = true

/-- May `p` say something in `channel`, at any date? -/
def GroupState.MayPost (s : GroupState) (p : PublicKey) (channel : String) : Prop :=
  (s.channel channel).isSome = true ∧ s.isMember p = true ∧
    (s.effective p channel).contains (Permissions.viewChannel.union .sendMessages) = true ∧
    ∃ date, s.silenceAt p date = none ∧ s.postsFrom p date = none

/-- What the judgement of a message asks for: nothing of it is about its files, but that
they are readable. -/
theorem judgeMessage_ok (said : msg.kind = chatMessage) (named : channelOf msg = some channel) :
    s.judgeMessage msg = .ok () ↔ (attachmentsOf msg).isSome = true ∧ (s.channel channel).isSome = true ∧
      s.isMember msg.pubkey = true ∧
      (s.effective msg.pubkey channel).contains (Permissions.viewChannel.union .sendMessages) = true ∧
      s.silenceAt msg.pubkey msg.createdAt = none ∧ s.postsFrom msg.pubkey msg.createdAt = none := by
  simp only [GroupState.judgeMessage, GroupState.judgeInChannel, GroupState.requireMember, bind_eq_ok, refuseIf_eq_ok,
    refuseWith_eq_ok, orRefuse_eq_ok, named, said, Option.some.injEq, exists_eq_left', Option.map_eq_none_iff, beq_self_eq_true,
    Bool.true_and, Option.isNone_eq_false_iff, Bool.not_eq_false', exists_const, Option.isSome_iff_exists]
  constructor
  · rintro ⟨readable, ⟨c, found, _, member, allowed⟩, clear, open_⟩
    split at member
    · rename_i here
      exact ⟨readable, ⟨c, found⟩, here, allowed, clear, open_⟩
    · cases member
  · rintro ⟨readable, ⟨c, found⟩, member, allowed, clear, open_⟩
    exact ⟨readable, ⟨c, found, (), if_pos member, allowed⟩, clear, open_⟩

end Files

/-- A picture, by its two hashes. -/
def pictureFields : List String :=
  ["url hit-blob:" ++ .ofList (List.replicate 64 'a'), "x " ++ .ofList (List.replicate 64 'b'), "size 1"]

/-- Says "look" in `channel`, with a picture. -/
def picture [Nostr] (group person : PublicKey) (channel : String) (date : Timestamp) : Event :=
  signed person date chatMessage [Draft.h group, ["channel", channel], "imeta" :: pictureFields] "look"

section Picture
variable [NostrEvents] {s : GroupState} {p : PublicKey} {channel : String}

variable (p channel) in
private theorem picture_files (group : PublicKey) (date : Timestamp) :
    ∃ file, attachmentsOf (picture group p channel date) = some [file] := by
  have readable : (parseAttachment pictureFields).isSome = true := by decide +kernel
  obtain ⟨file, read⟩ := Option.isSome_iff_exists.mp readable
  exact ⟨file, by simp [attachmentsOf, picture, signed, Draft.h, read, maxAttachments]⟩

/-- A member's files need the permission for them just where the member has it, or may
not post at all. -/
theorem attachNeeds_iff (s : GroupState) (p : PublicKey) (channel : String) :
    s.AttachNeeds p channel ↔ (s.effective p channel).contains .attachFiles = true ∨ ¬ s.MayPost p channel := by
  constructor
  · intro needs
    by_contra unmet
    rw [not_or, not_not] at unmet
    obtain ⟨denied, found, member, allowed, date, clear, open_⟩ := unmet
    obtain ⟨file, files⟩ := picture_files p channel s.id date
    have named : channelOf (picture s.id p channel date) = some channel := by
      simp [channelOf, picture, signed, firstValue, Draft.h, channelKinds]
    refine denied (needs (picture s.id p channel date) [file] rfl rfl named ?_ files (List.cons_ne_nil _ _))
    exact (judgeMessage_ok rfl named).mpr ⟨by rw [files]; rfl, found, member, allowed, clear, open_⟩
  · rintro (allowed | refused) msg files said own named ok read some_
    · exact allowed
    · obtain ⟨_, found, member, allowed, clear, open_⟩ := (judgeMessage_ok said named).mp ok
      exact absurd ⟨found, own ▸ member, own ▸ allowed, msg.createdAt, own ▸ clear, own ▸ open_⟩ refused

end Picture

/-- The founder's club, where members may not attach files in its one channel. -/
def wordyClub : List Event :=
  youngClub.take 6 ++
    [(Draft.editMetadata club
      [.override { channel := "general", role := defaultRole, allow := 0, deny := Permissions.attachFiles.bits }]).sign
      founder 130]

/-- A member's picture passes there. -/
theorem attachNeeds_wordyClub : ∃ s, GroupState.fold club wordyClub = some s ∧
    (s.effective guest "general").contains .attachFiles = false ∧ ¬ s.AttachNeeds guest "general" := by
  have facts : ((GroupState.fold club wordyClub).any fun s =>
      !(s.effective guest "general").contains .attachFiles && (s.judgeMessage (picture club guest "general" 500)).isOk &&
        (attachmentsOf (picture club guest "general" 500)).any fun files => !files.isEmpty) = true := by
    decide +kernel
  have named : channelOf (picture club guest "general" 500) = some "general" := by decide +kernel
  obtain ⟨s, found, checks⟩ := (Option.any_eq_true _ _).mp facts
  simp only [Bool.and_eq_true, Bool.not_eq_true'] at checks
  obtain ⟨⟨denied, passes⟩, carries⟩ := checks
  obtain ⟨files, read, some_⟩ := (Option.any_eq_true _ _).mp carries
  refine ⟨s, found, denied, fun needs => ?_⟩
  have ok : s.judgeMessage (picture club guest "general" 500) = .ok () := by
    cases verdict : s.judgeMessage (picture club guest "general" 500) with
    | ok _ => rfl
    | error _ =>
      rw [verdict] at passes
      cases passes
  have allowed := needs _ files rfl rfl named ok read (by simpa using some_)
  rw [denied] at allowed
  cases allowed

end HitEnter.Group
