import HitEnter.App.Publish

/-! What a pass does, key by key: each key is gone to at most once, and what is sent under
it is one event, to relays that differ, dated after what was noted of the key before. -/

namespace HitEnter.App

open Wire HitEnter.Group

section Send
variable {desk : Desk} {key other what : String} {event : Event} {list : List String} {takes : String → Bool}

theorem sendPublic_other (apart : other ≠ key) : (sendPublic desk key what event list takes).1[other]? = desk.1[other]? := by
  simp [sendPublic, Std.ExtTreeMap.getElem?_insert, apart.symm]

/-- What a call sends, and to whom. -/
theorem sendPublic_log : ∃ urls : List String, urls.Sublist list ∧ (sendPublic desk key what event list takes).2 =
    desk.2 ++ urls.map fun url => { key := key, event := event, url := url, taken := takes url } :=
  ⟨_, List.filter_sublist, rfl⟩

/-- Without an entry of the key, everyone is told. -/
theorem sendPublic_first (fresh : desk.1.contains key = false) (worded : what ≠ "") {url : String} (listed : url ∈ list) :
    { key := key, event := event, url := url, taken := takes url } ∈ (sendPublic desk key what event list takes).2 := by
  have none : desk.1[key]? = none := Std.ExtTreeMap.getElem?_eq_none_of_contains_eq_false fresh
  simp only [sendPublic, none, Option.getD_none, ne_eq, worded.symm, not_false_eq_true, ↓reduceIte, List.contains_nil,
    Bool.not_false, List.filter_true]
  exact List.mem_append_right _ (List.mem_map.mpr ⟨url, listed, rfl⟩)

theorem refreshed_other {noted : Published} {now : Timestamp} (apart : other ≠ key) :
    (refreshed noted key now)[other]? = noted[other]? := by
  unfold refreshed
  split
  · rfl
  · split
    · simp [Std.ExtTreeMap.getElem?_insert, apart.symm]
    · rfl

theorem contains_refreshed {noted : Published} {now : Timestamp} :
    (refreshed noted key now).contains key = noted.contains key := by
  unfold refreshed
  split
  · rfl
  · rename_i sent found
    split
    · rw [Std.ExtTreeMap.contains_insert_self]
      exact (Std.ExtTreeMap.isSome_getElem?_iff_mem.mp (by simp [found])).symm
    · rfl

/-- Saying the same again does not change from when it is dated. -/
theorem nextDate_refreshed {noted : Published} {now looked : Timestamp} :
    nextDate (refreshed noted key looked)[key]? now = nextDate noted[key]? now := by
  unfold refreshed
  split
  · rfl
  · rename_i sent found
    split
    · rw [Std.ExtTreeMap.getElem?_insert_self, found]
      rfl
    · rfl

end Send

/-- What the clock says when a pass comes to a key. -/
def Pass.reading [Bech32] (pass : Pass) (key : String) : Timestamp :=
  ((pass.groups.find? fun standing => Bech32.npub standing.group == key).map Standing.now).getD pass.now

section Steps
variable [NostrEvents] [Bech32] {pass : Pass} {desk out : Desk} {standing : Standing} {key : String}

/-- A step comes to an end, well or not. -/
def Ends (step : Except Desk Desk) (out : Desk) : Prop := step = .ok out ∨ step = .error out

omit [NostrEvents] [Bech32] in
theorem Ends.of_error {stopped : Desk} (ends : Ends (.error stopped) out) : out = stopped := by
  rcases ends with same | same
  · cases same
  · cases same
    rfl

omit [NostrEvents] in
theorem reading_groups : pass.reading "groups" = pass.now := by
  have nobody : (pass.groups.find? fun standing => Bech32.npub standing.group == "groups") = none := by
    simp [Bech32.npub_ne_groups]
  simp [Pass.reading, nobody]

omit [NostrEvents] in
theorem reading_npub (listed : standing ∈ pass.groups) : pass.reading (Bech32.npub standing.group) = standing.now := by
  have found : (pass.groups.find? fun other => Bech32.npub other.group == Bech32.npub standing.group) = some standing := by
    have some_ : (pass.groups.find? fun other => Bech32.npub other.group == Bech32.npub standing.group).isSome = true := by
      rw [List.find?_isSome]
      exact ⟨standing, listed, beq_self_eq_true _⟩
    obtain ⟨other, found⟩ := Option.isSome_iff_exists.mp some_
    have same : other.group = standing.group := Bech32.npub_injective (by simpa using List.find?_some found)
    rw [found, List.inj_on_of_nodup_map pass.apart (List.mem_of_find?_eq_some found) listed same]
  simp [Pass.reading, found]

/-- What one step does to the desk, at one key. -/
inductive Told (pass : Pass) (key : String) (desk : Desk) : Desk → Prop where
  | idle (noted : Published) (same : ∀ other, other ≠ key → noted[other]? = desk.1[other]?) :
      Told pass key desk (noted, desk.2)
  | sent (noted : Published) (what : String) (event : Event)
      (same : ∀ other, other ≠ key → noted[other]? = desk.1[other]?)
      (dated : key ≠ "profile" → event.createdAt = nextDate desk.1[key]? (pass.reading key)) :
      Told pass key desk (sendPublic (noted, desk.2) key what event pass.list (pass.takes key))

variable (pass desk) in
omit [Bech32] in
theorem sendProfile_cases : pass.sendProfile desk = .error desk ∨ pass.sendProfile desk = .ok desk ∨
    ∃ profile, pass.profile = .ok (some profile) ∧ pass.sendProfile desk = .ok (sendPublic desk "profile"
      (NostrEvents.eventIdToHex profile.id) profile pass.list (pass.takes "profile")) := by
  unfold Pass.sendProfile
  split
  · exact .inl rfl
  · exact .inr (.inl rfl)
  · rename_i profile found
    exact .inr (.inr ⟨profile, found, rfl⟩)

variable (pass desk) in
omit [Bech32] in
theorem sendGroups_cases : pass.sendGroups desk = .error desk ∨ pass.sendGroups desk = .ok desk ∨
    ∃ mine, pass.sendGroups desk = .ok (sendPublic desk "groups" (groupsWords mine)
      (groupsList pass.me mine (nextDate desk.1["groups"]? pass.now)) pass.list (pass.takes "groups")) := by
  unfold Pass.sendGroups
  split
  · exact .inl rfl
  · rename_i mine found
    split
    · exact .inr (.inl rfl)
    · split
      · exact .inl rfl
      · exact .inr (.inr ⟨mine, rfl⟩)

variable (pass desk standing) in
theorem sendGroup_cases :
    Ends (pass.sendGroup desk standing) (refreshed desk.1 (Bech32.npub standing.group) standing.looked, desk.2) ∨
    ∃ event, announcement standing (nextDate desk.1[Bech32.npub standing.group]? standing.now) = .ok (some event) ∧
      (announcementWords event = "private" → desk.1.contains (Bech32.npub standing.group) = true) ∧
      pass.sendGroup desk standing = .ok (sendPublic
        (refreshed desk.1 (Bech32.npub standing.group) standing.looked, desk.2) (Bech32.npub standing.group)
        (announcementWords event) event pass.list (pass.takes (Bech32.npub standing.group))) := by
  simp only [Pass.sendGroup, nextDate_refreshed, contains_refreshed, Ends]
  split
  · exact .inl (.inr rfl)
  · exact .inl (.inl rfl)
  · rename_i event found
    split
    · exact .inl (.inl rfl)
    · rename_i known
      refine .inr ⟨event, found, fun words => ?_, rfl⟩
      by_contra fresh
      exact known ⟨words, fresh⟩

omit [Bech32] in
/-- An announcement is of the group, or withdraws it. -/
theorem announcement_cases {date : Timestamp} {event : Event} (found : announcement standing date = .ok (some event)) :
    (∃ name about members link, event = announce standing.group name about members link date) ∨
      event = withdraw standing.group date := by
  unfold announcement at found
  split at found
  · cases found
  · rename_i s _
    cases held : standing.held with
    | error e => simp [held, bind, Except.bind] at found
    | ok here =>
      cases here with
      | false => simp [held, bind, Except.bind, pure, Except.pure] at found
      | true =>
        cases open_ : s.isPublic with
        | false =>
          cases signs : standing.signs with
          | error e => simp [held, open_, signs, bind, Except.bind] at found
          | ok _ =>
            simp only [held, open_, signs, bind, Except.bind, pure, Except.pure, Bool.not_true, Bool.false_eq_true,
              ↓reduceIte, Except.ok.injEq, Option.some.injEq] at found
            exact .inr found.symm
        | true =>
          cases link : standing.link with
          | error e => simp [held, open_, link, bind, Except.bind] at found
          | ok url =>
            cases signs : standing.signs with
            | error e => simp [held, open_, link, signs, bind, Except.bind] at found
            | ok _ =>
              simp only [held, open_, link, signs, bind, Except.bind, pure, Except.pure, Bool.not_true, Bool.false_eq_true,
                ↓reduceIte, Except.ok.injEq, Option.some.injEq] at found
              exact .inl ⟨_, _, _, _, found.symm⟩

/-! ### A pass, step by step -/

section Rule
variable {Inv : List String → Desk → Prop} {keys : List String}
  (group : ∀ keys desk standing, standing ∈ pass.groups → Bech32.npub standing.group ∉ keys → Inv keys desk →
    ∀ out, Ends (pass.sendGroup desk standing) out → Inv (Bech32.npub standing.group :: keys) out)
include group

private theorem groups_rule {rest : List Standing} (listed : ∀ standing ∈ rest, standing ∈ pass.groups)
    (apart : (rest.map Standing.group).Nodup) (fresh : ∀ standing ∈ rest, Bech32.npub standing.group ∉ keys)
    (inv : Inv keys desk) : ∀ out, Ends (rest.foldlM pass.sendGroup desk) out → ∃ keys, Inv keys out := by
  induction rest generalizing keys desk with
  | nil =>
    intro out ends
    rcases ends with same | same
    · cases same
      exact ⟨keys, inv⟩
    · cases same
  | cons standing rest ih =>
    intro out ends
    have step := group keys desk standing (listed standing List.mem_cons_self) (fresh standing List.mem_cons_self) inv
    rw [List.foldlM_cons] at ends
    cases told : pass.sendGroup desk standing with
    | error stopped =>
      rw [told] at ends
      have same : out = stopped := ends.of_error
      exact ⟨_, same ▸ step stopped (.inr told)⟩
    | ok next =>
      rw [told] at ends
      obtain ⟨first, apart⟩ := List.nodup_cons.mp apart
      refine ih (fun other later => listed other (List.mem_cons_of_mem standing later)) apart (fun other later old => ?_)
        (step next (.inl told)) out ends
      rcases List.mem_cons.mp old with same | old
      · exact first (Bech32.npub_injective same ▸ List.mem_map_of_mem later)
      · exact fresh other (List.mem_cons_of_mem standing later) old

/-- What each step keeps, the pass keeps; each key comes once. -/
theorem over_rule {noted : Published} (start : Inv [] (noted, []))
    (profile : ∀ desk, Inv [] desk → ∀ out, Ends (pass.sendProfile desk) out → Inv ["profile"] out)
    (groups : ∀ desk, Inv ["profile"] desk → ∀ out, Ends (pass.sendGroups desk) out → Inv ["groups", "profile"] out) :
    ∀ out, Ends (pass.over_ noted) out → ∃ keys, Inv keys out := by
  intro out ends
  have first := profile _ start
  unfold Pass.over_ at ends
  cases told : pass.sendProfile (noted, []) with
  | error stopped =>
    rw [told] at ends
    have same : out = stopped := ends.of_error
    exact ⟨_, same ▸ first stopped (.inr told)⟩
  | ok desk =>
    rw [told] at ends
    have second := groups desk (first desk (.inl told))
    change Ends (pass.sendGroups desk >>= fun desk => pass.groups.foldlM pass.sendGroup desk) out at ends
    cases told' : pass.sendGroups desk with
    | error stopped =>
      rw [told'] at ends
      have same : out = stopped := ends.of_error
      exact ⟨_, same ▸ second stopped (.inr told')⟩
    | ok next =>
      rw [told'] at ends
      refine groups_rule group (fun _ => id) pass.apart (fun standing _ old => ?_) (second next (.inl told')) out ends
      rcases List.mem_cons.mp old with same | old
      · exact Bech32.npub_ne_groups _ same
      · exact Bech32.npub_ne_profile _ (List.mem_singleton.mp old)

end Rule

end Steps

end HitEnter.App
