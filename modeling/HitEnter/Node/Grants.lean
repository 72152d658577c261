import HitEnter.Node.Effects
import HitEnter.Node.TagIndex

/-! Who may be handed a file once a direct message is in. The hash and the two people of
a DM's file are the sender's to write, and the table of grants is keyed by the hash. -/

namespace HitEnter.Node

open Wire HitEnter.Group

section Kept
variable [NostrEvents] {a b c node : Inner} {q : PublicKey} {hash : String} {now : Timestamp}

/-- May `q` read a held message with that file? -/
private def Carried (node : Inner) (q : PublicKey) (hash : String) (now : Timestamp) : Prop :=
  ∃ row ∈ node.store.events, row.kind = chatMessage ∧
    (∃ files, attachmentsOf row = some files ∧ ∃ file ∈ files, file.hash = hash) ∧
      node.groups.mayRead q row now = true

private theorem permitted_iff :
    node.permitted [q] hash now = true ↔ (hash, q) ∈ node.grants ∨ Carried node q hash now := by
  simp [Inner.permitted, Store.carrying, Carried, Option.any_eq_true, and_assoc]

private theorem carried_congr (same : Inner.SameGroups a b) : Carried b q hash now ↔ Carried a q hash now := by
  have others : chatMessage ≠ deviceBinding ∧ chatMessage ≠ giftWrap := by decide
  have rows : ∀ row : Event, row.kind = chatMessage → (row ∈ b.store.events ↔ row ∈ a.store.events) :=
    fun row kind => same.rows row (kind ▸ others.1) (kind ▸ others.2)
  unfold Carried
  rw [same.groups]
  refine exists_congr fun row => ?_
  constructor
  · rintro ⟨member, kind, rest⟩
    exact ⟨(rows row kind).mp member, kind, rest⟩
  · rintro ⟨member, kind, rest⟩
    exact ⟨(rows row kind).mpr member, kind, rest⟩

private theorem mem_grantBlob {person : PublicKey} {file : String} :
    (hash, q) ∈ (node.grantBlob file person).grants ↔ (hash, q) ∈ node.grants ∨ hash = file ∧ q = person := by
  unfold Inner.grantBlob
  split
  · rename_i granted
    have here : (file, person) ∈ node.grants := List.contains_iff_mem.mp granted
    refine ⟨.inl, fun either => either.elim id ?_⟩
    rintro ⟨rfl, rfl⟩
    exact here
  · simp

section Devices
variable [Devices]

variable [Wraps] {wrap : Event}

/-- A DM grants its own file to its two people, and nothing else to anyone. -/
private theorem mem_openWrap : (hash, q) ∈ (a.openWrap wrap now).grants ↔ (hash, q) ∈ a.grants ∨
    ∃ d f, openDm a.groups.me wrap = some d ∧ d.file = some f ∧ f.hash = hash ∧ (q = d.sender ∨ q = d.recipient) := by
  unfold Inner.openWrap
  split
  · rename_i closed
    simp [closed]
  · rename_i d opened
    have granted : (hash, q) ∈
        (d.file.elim a fun f => (a.grantBlob f.hash d.sender).grantBlob f.hash d.recipient).grants ↔
          (hash, q) ∈ a.grants ∨ ∃ f, d.file = some f ∧ f.hash = hash ∧ (q = d.sender ∨ q = d.recipient) := by
      cases d.file with
      | none => simp
      | some f =>
        simp only [Option.elim_some, mem_grantBlob, Option.some.injEq, exists_eq_left', eq_comm (a := hash)]
        tauto
    have only : (∃ d' f, some d = some d' ∧ d'.file = some f ∧ f.hash = hash ∧ (q = d'.sender ∨ q = d'.recipient)) ↔
        ∃ f, d.file = some f ∧ f.hash = hash ∧ (q = d.sender ∨ q = d.recipient) := by
      simp
    rw [opened, only, ← granted]
    simp only
    split
    · rfl
    · cases d.device with
      | none => rfl
      | some binding => simp only [Option.elim_some, Inner.SameGroups.learnBinding.2]

end Devices

end Kept

/-- An accepted wrap lets nobody have a file they were not let have before, if and only if
it is not both new and a DM with a file of that hash that has them for one of its two
people. -/
theorem permitted_wrap [NostrEvents] [Devices] [Wraps] {node : Inner} {wrap : Event} {source : Source}
    {now : Timestamp} (kind : wrap.kind = giftWrap)
    (accepted : (node.acceptEvent wrap source now).2.accepted = true) (q : PublicKey) (hash : String)
    (later : Timestamp) :
    ((node.acceptEvent wrap source now).1.permitted [q] hash later = true →
        node.permitted [q] hash later = true) ↔
      ∀ d f, (∀ row ∈ node.store.events, row.id ≠ wrap.id) → openDm node.groups.me wrap = some d → d.file = some f →
        f.hash = hash → q = d.sender ∨ q = d.recipient → node.permitted [q] hash later = true := by
  have other : wrap.kind ≠ chatMessage ∧ wrap.kind ≠ deviceBinding := by
    rw [kind]
    decide
  have regular : slot wrap = .regular := by
    have replaceable : ¬ (giftWrap = 0 ∨ giftWrap = 3 ∨ 10000 ≤ giftWrap ∧ giftWrap < 20000) := by decide
    have ephemeral : ¬ (20000 ≤ giftWrap ∧ giftWrap < 30000) := by decide
    have addressable : ¬ (30000 ≤ giftWrap ∧ giftWrap < 40000) := by decide
    rw [slot, kind, if_neg replaceable, if_neg ephemeral, if_neg addressable]
  rcases node.acceptEvent_cases wrap source now with ⟨judgement, booked, passed⟩ | ⟨_, refused⟩
  · obtain rfl : node = booked := by
      have entered := passed.entered
      rw [Inner.bookBinding_of_other other.2] at entered
      exact Except.ok.inj entered
    rw [passed.out]
    by_cases new : (node.insert wrap now).2 = .new
    · have fresh : ∀ row ∈ node.store.events, row.id ≠ wrap.id := Store.fresh_of_new new
      have follows : (node.insert wrap now).1.follow wrap (node.insert wrap now).2 now =
          ((node.insert wrap now).1.openWrap wrap now).keepInbox wrap := by
        have kinds : giftWrap ≠ deletion ∧ giftWrap ≠ deleteEvent := by decide
        simp [Inner.follow, new, kind, kinds]
      have same : Inner.SameGroups node (((node.insert wrap now).1.openWrap wrap now).keepInbox wrap) :=
        (Inner.SameGroups.insert (.inr kind)).trans (Inner.SameGroups.openWrap.trans Inner.SameGroups.keepInbox.1)
      have granted : (hash, q) ∈ (((node.insert wrap now).1.openWrap wrap now).keepInbox wrap).grants ↔
          (hash, q) ∈ node.grants ∨ ∃ d f, openDm node.groups.me wrap = some d ∧ d.file = some f ∧ f.hash = hash ∧
            (q = d.sender ∨ q = d.recipient) := by
        rw [Inner.SameGroups.keepInbox.2]
        exact mem_openWrap
      simp only [follows, permitted_iff, granted, carried_congr same]
      constructor
      · intro kept d f _ opened file named two
        exact kept (.inl (.inr ⟨d, f, opened, file, named, two⟩))
      · rintro covered ((before | ⟨d, f, opened, file, named, two⟩) | readable)
        · exact .inl before
        · exact covered d f fresh opened file named two
        · exact .inr readable
    · have follows : (node.insert wrap now).1.follow wrap (node.insert wrap now).2 now = (node.insert wrap now).1 :=
        if_pos new
      have same : Inner.SameGroups node (node.insert wrap now).1 := .insert (.inr kind)
      rw [follows, permitted_iff, permitted_iff, carried_congr same]
      refine ⟨fun _ d f fresh => absurd ((Store.insert_regular regular).mpr fresh) new, fun _ => id⟩
  · rw [accepted] at refused
    cases refused

/-- The founder puts a file in the den. -/
def denFile : Event :=
  signed founder 300 chatMessage
    [Draft.h den, ["channel", "general"], ["imeta", "url " ++ blobUrl ++ plainHash, "x " ++ plainHash, "size 1"]] ""

/-- A DM to the founder under a key made for it, about a file that the caller names. -/
def sealedLetter : Event := signed ⟨99⟩ 550 giftWrap [["p", Nostr.toHex founder]] "sealed"

def denWithFile : Inner := (foundersDen.insert denFile 600).1

theorem permitted_wrap_steward :
    (denWithFile.acceptEvent sealedLetter .push 600).1.permitted [steward] plainHash 600 = false := by
  have before : denWithFile.permitted [steward] plainHash 600 = false := by decide +kernel
  rw [Bool.eq_false_iff] at before ⊢
  refine mt ((permitted_wrap (by decide +kernel) (by decide +kernel) steward plainHash 600).mpr ?_) before
  rintro d f - opened - - two
  have neither : ((openDm denWithFile.groups.me sealedLetter).all fun d => steward != d.sender && steward != d.recipient) =
      true := by
    decide +kernel
  rw [opened, Option.all_some, Bool.and_eq_true, bne_iff_ne, bne_iff_ne] at neither
  exact absurd two (not_or.mpr neither)

/-- The letter lets the caller, who is no member of the den, have the den's file. -/
theorem sealedLetter_opens : (denWithFile.acceptEvent sealedLetter .push 600).2 = .stored .new ∧
    denFile ∈ denWithFile.store.carrying plainHash ∧ groupOf denFile = some den ∧
    ((denWithFile.groups.state den).any fun s => !s.isMember caller) = true ∧
    denWithFile.permitted [caller] plainHash 600 = false ∧
    (denWithFile.acceptEvent sealedLetter .push 600).1.permitted [caller] plainHash 600 = true := by
  decide +kernel

end HitEnter.Node
