import HitEnter.App.PublishSpec

/-! Whether a group is withdrawn only after some relay took an announcement of it, over any
run of passes. -/

namespace HitEnter.App

open Wire HitEnter.Group Lib.Runs

/-- Has some relay taken an announcement of `group`? -/
def Spoken (log : List Sending) (group : PublicKey) : Prop :=
  ∃ sent ∈ log, isAnnouncement group sent.event = true ∧ sent.taken = true

/-- Whatever withdraws a group is sent after some relay took an announcement of it. -/
def Prompted (log : List Sending) : Prop :=
  ∀ i sent group, log[i]? = some sent → isWithdrawal group sent.event = true → Spoken (log.take i) group

section Words
variable [NostrEvents] {standing : Standing} {event : Event} {date : Timestamp} {group : PublicKey}

theorem announcementWords_ne_empty : announcementWords event ≠ "" := by
  unfold announcementWords
  split
  · simp
  · decide

theorem announcementWords_withdraw : announcementWords (withdraw group date) = "private" := by
  have read : readAnnouncement (withdraw group date) = some (.withdrawn group date) ∨
      readAnnouncement (withdraw group date) = none := by
    unfold readAnnouncement
    cases NostrEvents.verify (withdraw group date) with
    | false => exact .inr (by simp)
    | true => exact .inl (by simp [withdraw, signed, valueOf])
  unfold announcementWords
  rcases read with same | same <;> rw [same]

/-- What is not said to be private announces its group. -/
theorem announcement_public (found : announcement standing date = .ok (some event))
    (words : announcementWords event ≠ "private") : isAnnouncement standing.group event = true := by
  rcases announcement_cases found with ⟨_, _, _, _, rfl⟩ | rfl
  · simp
  · exact absurd announcementWords_withdraw words

theorem announcement_withdraws {other : PublicKey} (found : announcement standing date = .ok (some event))
    (withdraws : isWithdrawal other event = true) : other = standing.group ∧ announcementWords event = "private" := by
  rcases announcement_cases found with ⟨_, _, _, _, rfl⟩ | rfl
  · simp at withdraws
  · rw [isWithdrawal_withdraw, beq_iff_eq] at withdraws
    exact ⟨withdraws.symm, announcementWords_withdraw⟩

end Words

section Pass
variable [NostrEvents] [Bech32] {pass : Pass} {desk out : Desk} {noted : Published} {keys : List String}

/-- Does a pass make the entry of a group, by announcing it? -/
def Pass.opens (noted : Published) (standing : Standing) : Bool :=
  !noted.contains (Bech32.npub standing.group) &&
    match announcement standing standing.now with
    | .ok (some event) => announcementWords event != "private"
    | _ => false

/-- Each group whose entry the pass makes, some relay takes the announcement of. -/
def Pass.isHeard (pass : Pass) (noted : Published) : Bool :=
  pass.groups.all fun standing => !Pass.opens noted standing ||
    pass.list.any (pass.takes (Bech32.npub standing.group))

/-- What a pass that is through with `keys` has said of groups. -/
private structure Voiced (pass : Pass) (noted : Published) (keys : List String) (desk : Desk) : Prop where
  kept : ∀ group, Bech32.npub group ∉ keys →
    desk.1.contains (Bech32.npub group) = noted.contains (Bech32.npub group) ∧
      desk.1[Bech32.npub group]? = noted[Bech32.npub group]?
  known : ∀ sent ∈ desk.2, ∀ group, isWithdrawal group sent.event = true → noted.contains (Bech32.npub group) = true
  spoken : pass.isHeard noted = true → ∀ group, desk.1.contains (Bech32.npub group) = true →
    noted.contains (Bech32.npub group) = true ∨ Spoken desk.2 group

/-- Something else than a group's is sent. -/
private theorem Voiced.aside (voiced : Voiced pass noted keys desk) {key what : String} {event : Event}
    (other : ∀ group, Bech32.npub group ≠ key) (kind : event.kind ≠ announcementKind) :
    Voiced pass noted (key :: keys) (sendPublic desk key what event pass.list (pass.takes key)) := by
  obtain ⟨urls, _, log⟩ := @sendPublic_log desk key what event pass.list (pass.takes key)
  have same : ∀ group, (sendPublic desk key what event pass.list (pass.takes key)).1.contains (Bech32.npub group) =
      desk.1.contains (Bech32.npub group) := by
    intro group
    rw [Std.ExtTreeMap.contains_eq_isSome_getElem?, sendPublic_other (other group),
      ← Std.ExtTreeMap.contains_eq_isSome_getElem?]
  refine ⟨fun group fresh => ?_, fun sent member group withdraws => ?_, fun heard group held => ?_⟩
  · rw [same, sendPublic_other (other group)]
    exact voiced.kept group fun old => fresh (List.mem_cons_of_mem key old)
  · rw [log] at member
    rcases List.mem_append.mp member with old | new
    · exact voiced.known sent old group withdraws
    · obtain ⟨url, _, rfl⟩ := List.mem_map.mp new
      simp [isWithdrawal, kind] at withdraws
  · rw [same] at held
    refine (voiced.spoken heard group held).imp_right ?_
    rintro ⟨sent, member, facts⟩
    exact ⟨sent, by rw [log]; exact List.mem_append_left _ member, facts⟩

private theorem Voiced.cons (voiced : Voiced pass noted keys desk) (key : String) :
    Voiced pass noted (key :: keys) desk :=
  ⟨fun group fresh => voiced.kept group fun old => fresh (List.mem_cons_of_mem key old), voiced.known, voiced.spoken⟩

private theorem Voiced.group (voiced : Voiced pass noted keys desk) {standing : Standing} (listed : standing ∈ pass.groups)
    (fresh : Bech32.npub standing.group ∉ keys) (ends : Ends (pass.sendGroup desk standing) out) :
    Voiced pass noted (Bech32.npub standing.group :: keys) out := by
  have refreshed_contains : ∀ group, (refreshed desk.1 (Bech32.npub standing.group) standing.looked).contains
      (Bech32.npub group) = desk.1.contains (Bech32.npub group) := by
    intro group
    by_cases own : Bech32.npub group = Bech32.npub standing.group
    · rw [own, contains_refreshed]
    · rw [Std.ExtTreeMap.contains_eq_isSome_getElem?, refreshed_other own, ← Std.ExtTreeMap.contains_eq_isSome_getElem?]
  have others : ∀ {group}, Bech32.npub group ∉ Bech32.npub standing.group :: keys →
      Bech32.npub group ≠ Bech32.npub standing.group ∧ Bech32.npub group ∉ keys := fun absent =>
    ⟨fun same => absent (same ▸ List.mem_cons_self), fun old => absent (List.mem_cons_of_mem _ old)⟩
  rcases sendGroup_cases pass desk standing with idle | ⟨event, found, known, told⟩
  · have still : out = (refreshed desk.1 (Bech32.npub standing.group) standing.looked, desk.2) := by
      rcases idle with told | told <;> rcases ends with same | same <;> rw [told] at same <;> cases same <;> rfl
    rw [still]
    refine ⟨fun group absent => ?_, voiced.known, fun heard group held => ?_⟩
    · rw [refreshed_contains, refreshed_other (others absent).1]
      exact voiced.kept group (others absent).2
    · rw [refreshed_contains] at held
      exact voiced.spoken heard group held
  · have same : out = sendPublic (refreshed desk.1 (Bech32.npub standing.group) standing.looked, desk.2)
        (Bech32.npub standing.group) (announcementWords event) event pass.list
        (pass.takes (Bech32.npub standing.group)) := by
      rcases ends with same | same <;> rw [told] at same <;> cases same
      rfl
    obtain ⟨urls, _, log⟩ := @sendPublic_log (refreshed desk.1 (Bech32.npub standing.group) standing.looked, desk.2)
      (Bech32.npub standing.group) (announcementWords event) event pass.list (pass.takes (Bech32.npub standing.group))
    obtain ⟨held, entry⟩ := voiced.kept standing.group fresh
    rw [same]
    refine ⟨fun group absent => ?_, fun sent member group withdraws => ?_, fun heard group here => ?_⟩
    · rw [Std.ExtTreeMap.contains_eq_isSome_getElem?, sendPublic_other (others absent).1, refreshed_other (others absent).1,
        ← Std.ExtTreeMap.contains_eq_isSome_getElem?]
      exact voiced.kept group (others absent).2
    · rw [log] at member
      rcases List.mem_append.mp member with old | new
      · exact voiced.known sent old group withdraws
      · obtain ⟨url, _, rfl⟩ := List.mem_map.mp new
        obtain ⟨rfl, words⟩ := announcement_withdraws found withdraws
        exact held ▸ known words
    · by_cases own : Bech32.npub group = Bech32.npub standing.group
      · obtain rfl := Bech32.npub_injective own
        cases old : noted.contains (Bech32.npub standing.group) with
        | true => exact .inl rfl
        | false =>
          -- The entry is made now, and the whole list is told.
          right
          have words : announcementWords event ≠ "private" := by
            intro words
            rw [← held, known words] at old
            cases old
          have none_ : noted[Bech32.npub standing.group]? = none :=
            Std.ExtTreeMap.getElem?_eq_none_of_contains_eq_false old
          have opens : Pass.opens noted standing = true := by
            rw [entry, none_] at found
            rw [Pass.opens, old, show announcement standing standing.now = .ok (some event) from found]
            simpa using words
          have answered := List.all_eq_true.mp heard standing listed
          rw [opens, Bool.not_true, Bool.false_or] at answered
          obtain ⟨url, listed', takes⟩ := List.any_eq_true.mp answered
          refine ⟨_, sendPublic_first ?_ announcementWords_ne_empty listed', announcement_public found words, takes⟩
          rw [refreshed_contains, held, old]
      · rw [Std.ExtTreeMap.contains_eq_isSome_getElem?, sendPublic_other own, refreshed_other own,
          ← Std.ExtTreeMap.contains_eq_isSome_getElem?] at here
        refine (voiced.spoken heard group here).imp_right ?_
        rintro ⟨sent, member, facts⟩
        exact ⟨sent, by rw [log]; exact List.mem_append_left _ member, facts⟩

private theorem over_voiced (ends : Ends (pass.over_ noted) out) : ∃ keys, Voiced pass noted keys out := by
  refine over_rule (fun keys desk standing listed fresh voiced out ends => voiced.group listed fresh ends)
    ⟨fun _ _ => ⟨rfl, rfl⟩, nofun, fun _ _ held => .inl held⟩ (fun desk voiced out ends => ?_)
    (fun desk voiced out ends => ?_) out ends
  · rcases sendProfile_cases pass desk with told | told | ⟨profile, found, told⟩
    all_goals
      rcases ends with same | same
      all_goals
        rw [told] at same
        cases same
    · exact voiced.cons "profile"
    · exact voiced.cons "profile"
    · refine voiced.aside (fun group => Bech32.npub_ne_profile group) ?_
      rw [pass.profiled profile found]
      decide
  · rcases sendGroups_cases pass desk with told | told | ⟨mine, told⟩
    all_goals
      rcases ends with same | same
      all_goals
        rw [told] at same
        cases same
    · exact voiced.cons "groups"
    · exact voiced.cons "groups"
    · refine voiced.aside (fun group => Bech32.npub_ne_groups group) ?_
      simp only [groupsList, signed]
      decide

end Pass

section Run
variable [NostrEvents] [Bech32]

/-- Where a pass makes the entry of a group and keeps it, some relay takes the announcement. -/
def Outbox.isHeard (outbox : Outbox) (pass : Pass) : Bool := !pass.writes || pass.isHeard (outbox.noted pass)

/-- What is noted of a group has been said of it. -/
private structure Minded (outbox : Outbox) : Prop where
  prompted : Prompted outbox.log
  spoken : ∀ group, outbox.file.contains (Bech32.npub group) = true → Spoken outbox.log group

omit [NostrEvents] [Bech32] in
private theorem Prompted.append {old new : List Sending} (prompted : Prompted old)
    (known : ∀ sent ∈ new, ∀ group, isWithdrawal group sent.event = true → Spoken old group) : Prompted (old ++ new) := by
  intro i sent group here withdraws
  by_cases early : i < old.length
  · rw [List.getElem?_append_left early] at here
    rw [List.take_append_of_le_length early.le]
    exact prompted i sent group here withdraws
  · have late : old.length ≤ i := Nat.le_of_not_lt early
    rw [List.getElem?_append_right late] at here
    obtain ⟨said, member, facts⟩ := known sent (List.mem_of_getElem? here) group withdraws
    refine ⟨said, ?_, facts⟩
    rw [List.take_append, List.take_of_length_le late]
    exact List.mem_append_left _ member

private theorem Minded.step {outbox : Outbox} (minded : Minded outbox) (pass : Pass) (heard : outbox.isHeard pass = true) :
    Minded (publishPublicOnce outbox pass) := by
  have noted : ∀ group, (outbox.noted pass).contains (Bech32.npub group) = true → Spoken outbox.log group := by
    intro group held
    unfold Outbox.noted at held
    split at held
    · exact minded.spoken group held
    · simp at held
  have earlier : ∀ {new : List Sending} {group}, Spoken outbox.log group → Spoken (outbox.log ++ new) group := by
    rintro new group ⟨sent, member, facts⟩
    exact ⟨sent, List.mem_append_left _ member, facts⟩
  have prompted : ∀ {keys desk}, Voiced pass (outbox.noted pass) keys desk → Prompted (outbox.log ++ desk.2) :=
    fun voiced => minded.prompted.append fun sent member group withdraws =>
      noted group (voiced.known sent member group withdraws)
  unfold publishPublicOnce
  cases told : pass.over_ (outbox.noted pass) with
  | error desk =>
    obtain ⟨keys, voiced⟩ := over_voiced (.inr told)
    exact ⟨prompted voiced, fun group held => earlier (minded.spoken group held)⟩
  | ok desk =>
    obtain ⟨keys, voiced⟩ := over_voiced (.inl told)
    refine ⟨prompted voiced, fun group held => ?_⟩
    simp only at held
    split at held
    · rename_i writes
      rw [Outbox.isHeard, writes, Bool.not_true, Bool.false_or] at heard
      rcases voiced.spoken heard group held with old | ⟨sent, member, facts⟩
      · exact earlier (noted group old)
      · exact ⟨sent, List.mem_append_right _ member, facts⟩
    · exact earlier (minded.spoken group held)

end Run

/-- The club is public while the person's list of relays is `first`, and then private. -/
def closedAfter (first : List String) (distinct : first.Nodup) : List Pass :=
  [clubPass id first distinct twoRelays 100, clubPass ({ · with isPublic := false }) twoRelays twoRelays_nodup twoRelays 200]

end HitEnter.App
